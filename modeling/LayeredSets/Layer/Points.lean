import LayeredSets.Layer.Basic

/-!
# Points from constraints

This layer answers `singleton` itself, by intersecting one constraint for each variable that was
declared through it. What it makes on the way it releases again. Every other call passes through.
-/

namespace LayeredSets

/-- The variables that were declared through the layer, in order. -/
structure Points where
  declared : List VarId

namespace Points

variable {σ : Type}

/-- Narrow `set` down to the valuations with the given values, releasing what is used up. -/
def narrow (inner : Operations σ) : List (VarId × UInt64) → SetId → Act σ SetId
  | [], set => pure set
  | (var, value) :: rest, set => do
    match ← (inner.step (.varEqConst var value)).outcome with
    | .error e =>
      inner.step (.release set)
      Action.fail e
    | .ok constraint =>
      let narrowed ← inner.step (.intersect set constraint)
      inner.step (.release set)
      inner.step (.release constraint)
      narrow inner rest narrowed

def point (inner : Operations σ) (declared : List VarId) (values : List UInt64) : Act σ SetId := do
  let set ← inner.step .top
  narrow inner (declared.zip values) set

def step (inner : Operations σ) : {k : Answer} → Call k → Act (Atop Points σ) k.Value
  | _, .declare name bits => do
    let var ← Atop.below (inner.step (.declare name bits))
    Atop.modifyLayer fun p => ⟨p.declared ++ [var]⟩
    return var
  | _, .singleton values => do
    let s ← Action.get
    let declared := s.layer.declared
    if values.length != declared.length then
      Action.fail (.arityMismatch declared.length values.length)
    else Atop.below (point inner declared values)
  | _, call => Atop.below (inner.step call)

def operations (inner : Operations σ) : Operations (Atop Points σ) where
  step := step inner
  describe s := s!"singleton({inner.describe s.inner})"
  dispose s host := inner.dispose s.inner host

end Points
end LayeredSets
