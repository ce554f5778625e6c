import LayeredSets.Domain.Basic
import LayeredSets.Observer.Basic

/-!
# Layers

A layer is itself a domain: it keeps a state of its own on top of the domain below it. The simplest
one is an observer that is attached to a domain: every call goes to the domain below first and is
then shown to the observer together with its outcome.
-/

namespace LayeredSets

/-- The state of a layer, on top of the state of the domain below. -/
structure Atop (ω σ : Type) where
  layer : ω
  inner : σ

namespace Atop

variable {ε ω σ α : Type}

/-- Run an action of the domain below. -/
def below (x : Action ε σ α) : Action ε (Atop ω σ) α :=
  Action.within (·.inner) (fun s inner => { s with inner }) x

/-- Change the layer's own state. -/
def modifyLayer (f : ω → ω) : Action ε (Atop ω σ) Unit :=
  Action.modify fun s => { s with layer := f s.layer }

@[simp] theorem below_apply (x : Action ε σ α) (s : Atop ω σ) (host : Host) :
    below x s host =
      ((x s.inner host).1, ⟨s.layer, (x s.inner host).2.1⟩, (x s.inner host).2.2) := rfl

@[simp] theorem modifyLayer_apply (f : ω → ω) (s : Atop ω σ) (host : Host) :
    (modifyLayer f : Action ε (Atop ω σ) Unit) s host =
      (.ok (), ⟨f s.layer, s.inner⟩, host) := rfl

end Atop

abbrev Observed (σ : Type) : Type := Atop Observer σ

namespace Observed

variable {σ : Type} {k : Answer}

def step (inner : Operations σ) (call : Call k) : Act (Observed σ) k.Value := fun s host =>
  let (outcome, domain, host) := inner.step call s.inner host
  let (observer, host) := s.layer.observe call (outcome.map k.reply) host
  (outcome, ⟨observer, domain⟩, host)

/-- The domain below is disposed of before the observer. -/
def operations (inner : Operations σ) : Operations (Observed σ) where
  step := step inner
  describe s := s!"{s.layer.label}({inner.describe s.inner})"
  dispose s host := s.layer.dispose (inner.dispose s.inner host)

end Observed
end LayeredSets
