import LayeredSets.Proofs.Chain.Live
import LayeredSets.Proofs.Chain.Rests

/-!
# Watched domains

A watch sits between a domain and its caller and writes down every call together with the explicit
domain at the bottom as the call finds it. It changes nothing else. What it has seen tells whether
the caller has ever named a set or a variable that was not there.
-/

namespace LayeredSets

open Action

variable {σ τ : Type}

/-- A call, and the explicit domain at the bottom as the call finds it. -/
structure Sighting where
  bottom : Explicit
  request : Request

namespace Watch

def step (base : σ → Explicit) (inner : Operations σ) {k : Answer} (call : Call k) :
    Act (Atop (List Sighting) σ) k.Value :=
  fun s host =>
    let (outcome, domain, host) := inner.step call s.inner host
    (outcome, ⟨s.layer ++ [⟨base s.inner, ⟨call⟩⟩], domain⟩, host)

def operations (base : σ → Explicit) (inner : Operations σ) :
    Operations (Atop (List Sighting) σ) where
  step := step base inner
  describe s := inner.describe s.inner
  dispose s host := inner.dispose s.inner host

/-- A watch makes no difference to the calls. -/
theorem carries (base : σ → Explicit) (inner : Operations σ) :
    (operations base inner).Carries (·.inner) inner where
  step _ _ _ := rfl
  describe _ := rfl
  dispose _ _ := rfl

/-- Watches on two domains see the same if they look at the same bottom. -/
theorem carries_map {f : σ → τ} {a : Operations σ} {b : Operations τ} (h : a.Carries f b)
    (base : τ → Explicit) :
    (operations (fun s => base (f s)) a).Carries (Atop.map f) (operations base b) where
  step call s host := by
    simp only [operations, step, Atop.map, h.step call s.inner host]
  describe s := h.describe s.inner
  dispose s host := h.dispose s.inner host

end Watch

/-- What backs a domain: an explicit domain, which would do the same with each call that is given
nothing but what is there, as long as the state is good and the domain is not spent. -/
structure Backing (ops : Operations σ) where
  base : σ → Explicit
  Good : σ → Prop
  Spent : σ → Prop
  tidy : ∀ {s}, Good s → (base s).Tidy
  keeps : ∀ (k : Answer) (call : Call k), Keeps (fun s _ => Spent s) (ops.step call)
  step : ∀ {k : Answer} (call : Call k) {s : σ}, Good s → (base s).Provides call →
    Ends Spent (ops.step call) s fun outcome t =>
      Good t ∧ (base s).Follows call outcome (base t)

/-- A tapped explicit domain backs itself until its handles of sets are used up. -/
def Bottom.backing : Backing (Tap.operations Explicit.operations) where
  base s := s.inner
  Good := Sound
  Spent := Full
  tidy hs := hs.tidy
  keeps _ call := keeps_full call
  step call _ hs _ := Bottom.step call hs

variable {ops : Operations σ}

/-- The bottom that a domain rests on backs it. -/
def Rests.backing {bottom : σ → Bottom} {Good : σ → Prop} (h : Rests ops bottom Good) :
    Backing ops where
  base s := (bottom s).inner
  Good := Good
  Spent s := (bottom s).Spent
  tidy hs := (h.sound _ hs).tidy
  keeps := h.keeps
  step call _ hs _ := h.step call hs

/-- All calls that a watch has seen were given nothing but what was there. -/
def Backing.watched (B : Backing ops) : Backing (Watch.operations B.base ops) where
  base s := B.base s.inner
  Good s := B.Good s.inner ∧ ∀ seen ∈ s.layer, seen.bottom.Provides seen.request.call
  Spent s := B.Spent s.inner
  tidy hs := B.tidy hs.1
  keeps k call := ⟨fun s host h => (B.keeps k call).keeps s.inner host h⟩
  step call s hs hcall host hleft := by
    obtain ⟨hgood, hfollows⟩ := B.step call hs.1 hcall host hleft
    refine ⟨⟨hgood, fun seen hseen => ?_⟩, hfollows⟩
    rcases List.mem_append.mp hseen with hold | hnew
    · exact hs.2 seen hold
    · rw [List.mem_singleton.mp hnew]
      exact hcall

end LayeredSets
