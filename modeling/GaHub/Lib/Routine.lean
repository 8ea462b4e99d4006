import Mathlib.Logic.Basic

namespace Lib

def Routine (σ χ α : Type) := σ → Except χ α × σ

namespace Routine

variable {σ χ α β : Type}

def bind (x : Routine σ χ α) (f : α → Routine σ χ β) : Routine σ χ β := fun s =>
  match x s with
  | (.ok a, t) => f a t
  | (.error e, t) => (.error e, t)

def catches (x : Routine σ χ α) (handler : χ → Routine σ χ α) : Routine σ χ α := fun s =>
  match x s with
  | (.ok a, t) => (.ok a, t)
  | (.error e, t) => handler e t

instance : Monad (Routine σ χ) where
  pure a := fun s => (.ok a, s)
  bind := bind

instance : MonadExcept χ (Routine σ χ) where
  throw e := fun s => (.error e, s)
  tryCatch := catches

def update (g : σ → σ) : Routine σ χ Unit := fun s => (.ok (), g s)

-- Begun in a state, the routine ends as `post` says of its outcome and the state it leaves.
def Ends (x : Routine σ χ α) (s : σ) (post : Except χ α → σ → Prop) : Prop := post (x s).1 (x s).2

section Rules

variable {s : σ} {x : Routine σ χ α} {f : α → Routine σ χ β} {q : Except χ α → σ → Prop}
  {post : Except χ β → σ → Prop}

theorem Ends.pure {a : α} (h : q (.ok a) s) : Ends (pure a : Routine σ χ α) s q := h

theorem Ends.throw {e : χ} (h : q (.error e) s) : Ends (throw e : Routine σ χ α) s q := h

theorem Ends.update {g : σ → σ} {post : Except χ Unit → σ → Prop} (h : post (.ok ()) (g s)) :
    Ends (update g) s post := h

theorem Ends.weaken {post : Except χ α → σ → Prop} (h : Ends x s q) (hpost : ∀ out t, q out t → post out t) :
    Ends x s post := hpost _ _ h

theorem Ends.bind (h : Ends x s q) (hraise : ∀ e t, q (.error e) t → post (.error e) t)
    (hrest : ∀ a t, q (.ok a) t → Ends (f a) t post) : Ends (x >>= f) s post := by
  show post (Routine.bind x f s).1 (Routine.bind x f s).2
  unfold Ends at h
  unfold Routine.bind
  cases hx : x s with
  | mk out t =>
      rw [hx] at h
      cases out with
      | error e => exact hraise e t h
      | ok a => exact hrest a t h

theorem Ends.catches {handler : χ → Routine σ χ α} {post : Except χ α → σ → Prop} (h : Ends x s q)
    (hret : ∀ a t, q (.ok a) t → post (.ok a) t) (hrest : ∀ e t, q (.error e) t → Ends (handler e) t post) :
    Ends (tryCatch x handler) s post := by
  show post (Routine.catches x handler s).1 (Routine.catches x handler s).2
  unfold Ends at h
  unfold Routine.catches
  cases hx : x s with
  | mk out t =>
      rw [hx] at h
      cases out with
      | ok a => exact hret a t h
      | error e => exact hrest e t h

end Rules

end Routine

end Lib
