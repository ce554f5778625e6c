import LayeredSets.Proofs.Chain.Live
import LayeredSets.Proofs.Chain.Matches
import LayeredSets.Proofs.Action
import LayeredSets.Proofs.Trace.Line
import LayeredSets.Trace.Run

/-!
# Replaying one step

While a recording is replayed, its handles stand for the sets and variables that the recorded chain
has: the sets of both are the same at each handle that is live. So the step of a successful call
makes the corresponding call, which has the corresponding answer.
-/

namespace LayeredSets

/-! ## What a successful call was given -/

theorem Call.rename_congr {k : Answer} {call : Call k} {f g : SetId → SetId}
    (h : ∀ set ∈ call.sets, f set = g set) : call.rename f = call.rename g := by
  cases call <;> simp_all [Call.rename, Call.sets]

namespace Explicit

theorem lt_of_bitsOf {d : Explicit} {var : VarId} {bits : UInt32} (h : d.bitsOf var = .ok bits) :
    var.index.toNat < d.vars.length := by
  rw [bitsOf] at h
  split at h
  · next hget => exact (List.getElem?_eq_some_iff.mp hget).1
  · cases h

/-- All that a call is given is there if it succeeds. -/
structure Known {k : Answer} (d : Explicit) (call : Call k) : Prop extends d.Provides call where
  wide : call.Wide

theorem known_of_made {d : Explicit} {call : Call .set} {r : Region} (h : d.made call = .ok r) :
    d.Known call := by
  have hpair {a b : SetId} {f : Region → Region → Region}
      (h : (do return f (← d.region a) (← d.region b)) = Except.ok r) :
      ∀ set ∈ [a, b], set ∈ d.live := by
    obtain ⟨x, hx, h⟩ := bind_eq_ok h
    obtain ⟨y, hy, h⟩ := bind_eq_ok h
    simpa using ⟨live_of_region hx, live_of_region hy⟩
  cases call with
  | top | bottom | singleton => exact ⟨⟨by simp [Call.sets], by simp [Call.vars]⟩, trivial⟩
  | varEqConst var value =>
    obtain ⟨bits, hbits, h⟩ := bind_eq_ok h
    exact ⟨⟨by simp [Call.sets], by simpa [Call.vars] using lt_of_bitsOf hbits⟩, trivial⟩
  | varEqVar a b =>
    obtain ⟨left, hleft, h⟩ := bind_eq_ok h
    obtain ⟨right, hright, h⟩ := bind_eq_ok h
    exact ⟨⟨by simp [Call.sets],
      by simpa [Call.vars] using ⟨lt_of_bitsOf hleft, lt_of_bitsOf hright⟩⟩, trivial⟩
  | union a b | intersect a b | difference a b => exact ⟨⟨hpair h, by simp [Call.vars]⟩, trivial⟩
  | complement a =>
    obtain ⟨x, hx, h⟩ := bind_eq_ok h
    exact ⟨⟨by simpa [Call.sets] using live_of_region hx, by simp [Call.vars]⟩, trivial⟩
  | «exists» set var =>
    obtain ⟨bits, hbits, h⟩ := bind_eq_ok h
    obtain ⟨x, hx, h⟩ := bind_eq_ok h
    exact ⟨⟨by simpa [Call.sets] using live_of_region hx,
      by simpa [Call.vars] using lt_of_bitsOf hbits⟩, trivial⟩

theorem known_of_answer {d : Explicit} {call : Call .bool} {answer : Bool}
    (h : d.answer call = .ok answer) : d.Known call := by
  refine ⟨⟨?_, by cases call <;> simp [Call.vars]⟩, by cases call <;> trivial⟩
  cases call with
  | isEmpty set =>
    obtain ⟨x, hx, h⟩ := bind_eq_ok h
    simpa [Call.sets] using live_of_region hx
  | equal a b | subset a b =>
    obtain ⟨x, hx, h⟩ := bind_eq_ok h
    obtain ⟨y, hy, h⟩ := bind_eq_ok h
    simpa [Call.sets] using ⟨live_of_region hx, live_of_region hy⟩

theorem Follows.known {d d' : Explicit} {k : Answer} {call : Call k} {value : k.Value}
    (h : d.Follows call (.ok value) d') : d.Known call := by
  obtain ⟨after, hmakes, -⟩ := h.makes
  cases hmakes with
  | @declared _ bits _ _ hdeclare =>
    obtain ⟨hvalid, -⟩ := declare_eq_ok hdeclare
    exact ⟨⟨by simp [Call.sets], by simp [Call.vars]⟩, ((isValidWidth_iff bits).mp hvalid).1⟩
  | made hmade => exact known_of_made hmade
  | answered hanswer => exact known_of_answer hanswer
  | @released _ r hregion =>
    exact ⟨⟨by simpa [Call.sets] using live_of_region hregion, by simp [Call.vars]⟩, trivial⟩

end Explicit

/-- Did the call succeed? -/
def succeeded : Outcome → Bool
  | .ok _ => true
  | .error _ => false

/-- Is this the outcome of a query that succeeded? -/
def answered : Outcome → Bool
  | .ok (.bool _) => true
  | _ => false

namespace Trace

/-- What a replay knows once the calls that have issued these handles are replayed, against the
explicit domain `d` at the bottom of the recorded chain. -/
structure Replays (issued : List SetId) (d : Explicit) (st : State Explicit) : Prop where
  domain : Matches issued d st.domain
  sets : ∀ set r, d.sets.get? set = some r → st.sets.get? set.text = some (rank issued set)
  vars : ∀ var : VarId, var.index.toNat < d.vars.length → st.vars.get? var.text = some var

namespace Replays

variable {issued : List SetId} {d d' : Explicit} {st : State Explicit}

theorem new (limit : UInt32) : Replays [] (Explicit.new limit) (.new (Explicit.new limit)) where
  domain := .new limit
  sets set r h := by simp [Explicit.new] at h
  vars var h := by simp [Explicit.new] at h

/-- A failed call changes nothing that is known. -/
theorem similar (h : Replays issued d st) (hsimilar : d.Similar d') : Replays issued d' st where
  domain := h.domain.similar hsimilar
  sets set r hr := h.sets set r (by rw [← hsimilar.sets, hr])
  vars var hvar := h.vars var (by rwa [← hsimilar.vars])

theorem findSet_eq (h : Replays issued d st) {set : SetId} (hset : ∃ r, d.sets.get? set = some r)
    (line : Nat) (host : Host) : findSet line set.text st host = (.ok (rank issued set), st, host) := by
  obtain ⟨r, hr⟩ := hset
  simp only [findSet, Action.bind_apply, Action.get, h.sets set r hr, Action.require,
    Action.pure_apply]

theorem findVar_eq (h : Replays issued d st) {var : VarId}
    (hvar : var.index.toNat < d.vars.length) (line : Nat) (host : Host) :
    findVar line var.text st host = (.ok var, st, host) := by
  simp only [findVar, Action.bind_apply, Action.get, h.vars var hvar, Action.require,
    Action.pure_apply]

/-- A definition stands for the call that was recorded. -/
theorem resolve_eq (h : Replays issued d st) {call : Call .set} (hknown : d.Known call) (set : SetId)
    (line : Nat) (host : Host) :
    ∃ definition, Recording.stepOp call set = .define set.text definition ∧
      resolve line definition st host = (.ok (call.rename (rank issued)), st, host) := by
  have hset (set : SetId) (hmem : set ∈ call.sets) := h.findSet_eq (hknown.sets set hmem) line host
  have hvar (var : VarId) (hmem : var ∈ call.vars) := h.findVar_eq (hknown.vars var hmem) line host
  cases call with
  | top | bottom | singleton => exact ⟨_, rfl, rfl⟩
  | _ =>
    refine ⟨_, rfl, ?_⟩
    simp_all [-bind_pure_comp, resolve, Action.bind_apply, Call.sets, Call.vars, Call.rename]

/-- So does a query. -/
theorem resolveQuery_eq (h : Replays issued d st) {call : Call .bool} (hknown : d.Known call)
    (line : Nat) (host : Host) :
    ∃ query, (∀ answer, Recording.stepOp call answer = .query query (some answer)) ∧
      resolveQuery line query st host = (.ok (call.rename (rank issued)), st, host) := by
  have hset (set : SetId) (hmem : set ∈ call.sets) := h.findSet_eq (hknown.sets set hmem) line host
  cases call with
  | _ =>
    refine ⟨_, fun _ => rfl, ?_⟩
    simp_all [-bind_pure_comp, resolveQuery, Action.bind_apply, Call.sets, Call.rename]

/-- Making the corresponding call. -/
theorem call_eq (h : Replays issued d st) {k : Answer} {call : Call k} {value : k.Value}
    (hfollows : d.Follows call (.ok value) d') (line : Nat) (host : Host) :
    let after := issued ++ issuedSets [.ok (k.reply value)]
    ∃ value' b' host', Trace.call Explicit.operations line (call.rename (rank issued)) st host =
        (.ok value', { st with domain := b' }, host') ∧
      k.reply value' = (k.reply value).rename (rank after) ∧ Matches after d' b' := by
  intro after
  have hcall : call.sets ⊆ issued := by
    intro set hset
    obtain ⟨r, hr⟩ := hfollows.known.sets set hset
    exact h.domain.complete set r hr
  obtain ⟨value', b', happly, hreply, hmatches⟩ := h.domain.follows_ok hcall hfollows []
  have hrename : call.rename (rank (issued ++ issuedSets [.ok (k.reply value)] ++ [])) =
      call.rename (rank issued) :=
    Call.rename_congr fun set hset => by rw [List.append_nil, rank_append (hcall hset)]
  rw [hrename] at happly
  rw [List.append_nil] at hreply
  refine ⟨value', b', (Explicit.messages (call.rename (rank issued))).foldl Host.report host, ?_,
    hreply, hmatches⟩
  simp only [Trace.call, Action.mapError, Action.within, Explicit.operations, Explicit.step, happly,
    Except.mapError]

/-- A declaration adds a variable under its handle. -/
theorem execute_declare (h : Replays issued d st) {name : String} {bits : UInt32} {var : VarId}
    (hfollows : d.Follows (.declare name bits) (.ok var) d') (line : Nat)
    (host : Host) :
    ∃ st' host', execute Explicit.operations line (.declare var.text name bits) st host =
        (.ok (), st', host') ∧ Replays issued d' st' ∧ st'.checked = st.checked := by
  obtain ⟨value', b', host', hcall, hreply, hmatches⟩ := h.call_eq hfollows line host
  obtain ⟨hvar, hvars, hsets⟩ := hfollows.of_declare
  obtain rfl : value' = var := Reply.var.inj hreply
  refine ⟨{ st with domain := b', vars := st.vars.insert value'.text value' }, host', ?_,
    ⟨by simpa [issuedSets, Answer.reply] using hmatches, ?_, ?_⟩, rfl⟩
  · exact Action.bind_apply_ok hcall
  · intro set r hr
    exact h.sets set r (by rw [← hsets, hr])
  · intro other hother
    by_cases heq : other = value'
    · rw [heq, Table.get?_insert_self]
    · rw [Table.get?_insert_of_ne _ _ (varText_injective.ne heq)]
      refine h.vars other ?_
      have hne : other.index.toNat ≠ d.vars.length := by
        intro hindex
        refine heq ?_
        rw [hvar, ← hindex, UInt32.ofNat_toNat]
      rw [hvars, List.length_append, List.length_singleton] at hother
      omega

/-- A new set is known by its handle, and stands for the next set of the replay. -/
theorem execute_define (h : Replays issued d st) {call : Call .set} {set : SetId}
    (hfollows : d.Follows call (.ok set) d') (line : Nat) (host : Host) :
    ∃ st' host', execute Explicit.operations line (Recording.stepOp call set) st host =
        (.ok (), st', host') ∧ Replays (issued ++ [set]) d' st' ∧ st'.checked = st.checked := by
  obtain ⟨value', b', host', hcall, hreply, hmatches⟩ := h.call_eq hfollows line host
  obtain ⟨definition, hop, hresolve⟩ := h.resolve_eq hfollows.known set line host
  obtain ⟨hfresh, hvars, r, hsets⟩ := hfollows.of_made
  have hvalue : value' = rank (issued ++ [set]) set := Reply.set.inj hreply
  refine ⟨{ st with domain := b', sets := st.sets.insert set.text value' }, host', ?_,
    ⟨hmatches, ?_, ?_⟩, rfl⟩
  · rw [hop]
    refine (Action.bind_apply_ok hresolve).trans ?_
    exact Action.bind_apply_ok hcall
  · intro other r' hr'
    by_cases heq : other = set
    · rw [heq, Table.get?_insert_self, hvalue]
    · rw [hsets, if_neg heq] at hr'
      rw [Table.get?_insert_of_ne _ _ (setText_injective.ne heq), h.sets other r' hr',
        rank_append (h.domain.complete other r' hr')]
  · intro var hvar
    exact h.vars var (by rwa [← hvars])

/-- The call of a query has the recorded answer. -/
theorem call_query (h : Replays issued d st) {call : Call .bool} {answer : Bool}
    (hfollows : d.Follows call (.ok answer) d') (line : Nat) (host : Host) :
    ∃ query st' host', (∀ answer, Recording.stepOp call answer = .query query (some answer)) ∧
      (∀ expected, execute Explicit.operations line (.query query expected) st host =
        check line answer expected st' host') ∧
      Replays issued d' st' ∧ st'.checked = st.checked := by
  obtain ⟨value', b', host', hcall, hreply, hmatches⟩ := h.call_eq hfollows line host
  obtain ⟨query, hop, hresolve⟩ := h.resolveQuery_eq hfollows.known line host
  obtain rfl : value' = answer := Reply.bool.inj hreply
  obtain ⟨-, hsimilar⟩ := Explicit.follows_bool_iff.mp hfollows
  refine ⟨query, { st with domain := b' }, host', hop, fun expected => ?_, ⟨?_, ?_, ?_⟩, rfl⟩
  · refine (Action.bind_apply_ok hresolve).trans ?_
    exact Action.bind_apply_ok hcall
  · simpa [issuedSets, Answer.reply] using hmatches
  · exact fun set r hr => h.sets set r (by rw [← hsimilar.sets, hr])
  · exact fun var hvar => h.vars var (by rwa [← hsimilar.vars])

theorem execute_release (h : Replays issued d st) {set : SetId}
    (hfollows : d.Follows (.release set) (.ok ()) d') (line : Nat) (host : Host) :
    ∃ st' host', execute Explicit.operations line (.release set.text) st host =
        (.ok (), st', host') ∧ Replays issued d' st' ∧ st'.checked = st.checked := by
  obtain ⟨value', b', host', hcall, hreply, hmatches⟩ := h.call_eq hfollows line host
  obtain ⟨hvars, hsets⟩ := hfollows.of_release
  have hfind := h.findSet_eq (hfollows.known.sets set (by simp [Call.sets])) line host
  refine ⟨{ st with domain := b', sets := st.sets.erase set.text }, host', ?_,
    ⟨by simpa [issuedSets, Answer.reply] using hmatches, ?_, ?_⟩, rfl⟩
  · refine (Action.bind_apply_ok hfind).trans ?_
    exact Action.bind_apply_ok hcall
  · intro other r hr
    rw [hsets] at hr
    split at hr
    · cases hr
    · next hne => rw [Table.get?_erase_of_ne _ (setText_injective.ne hne), h.sets other r hr]
  · intro var hvar
    exact h.vars var (by rwa [← hvars])

/-- The step of a successful call is replayed. -/
theorem execute_ok (h : Replays issued d st) {k : Answer} {call : Call k} {value : k.Value}
    (hfollows : d.Follows call (.ok value) d') (line : Nat) (host : Host) :
    ∃ st' host', execute Explicit.operations line (Recording.stepOp call value) st host =
        (.ok (), st', host') ∧
      Replays (issued ++ issuedSets [.ok (k.reply value)]) d' st' ∧
      st'.checked = st.checked + [Except.ok (k.reply value)].countP answered := by
  cases k with
  | var =>
    obtain ⟨name, bits⟩ := call
    obtain ⟨st', host', hexecute, hreplays, hchecked⟩ := h.execute_declare hfollows line host
    exact ⟨st', host', hexecute, by simpa [issuedSets, Answer.reply] using hreplays, hchecked⟩
  | set =>
    obtain ⟨st', host', hexecute, hreplays, hchecked⟩ := h.execute_define hfollows line host
    exact ⟨st', host', hexecute, hreplays, hchecked⟩
  | bool =>
    obtain ⟨query, st', host', hop, hquery, hreplays, hchecked⟩ := h.call_query hfollows line host
    refine ⟨{ st' with checked := st'.checked + 1 }, host', ?_, ?_, ?_⟩
    · rw [hop, hquery, check, if_pos rfl]
      rfl
    · have hsame : Replays issued d' { st' with checked := st'.checked + 1 } :=
        ⟨hreplays.domain, hreplays.sets, hreplays.vars⟩
      simpa [issuedSets, Answer.reply] using hsame
    · simp [hchecked, answered, Answer.reply]
  | unit =>
    cases call with
    | release set =>
      obtain ⟨st', host', hexecute, hreplays, hchecked⟩ := h.execute_release hfollows line host
      exact ⟨st', host', hexecute, by simpa [issuedSets, Answer.reply] using hreplays, hchecked⟩

/-- A step with the other answer is where the replay ends. -/
theorem execute_flipped (h : Replays issued d st) {call : Call .bool} {answer : Bool}
    (hfollows : d.Follows call (.ok answer) d') (line : Nat) (host : Host) :
    (execute Explicit.operations line (Recording.stepOp call (!answer)) st host).1 =
      .error (.checkFailed (!answer) answer line) := by
  obtain ⟨query, st', host', hop, hquery, -, -⟩ := h.call_query hfollows line host
  rw [hop, hquery, check, if_neg (by simp)]
  rfl

end Replays
end Trace
end LayeredSets
