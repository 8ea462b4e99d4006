import Mathlib.Logic.Basic

namespace Lib

-- A routine that puts questions to its environment: `ans e` is what `e` may be answered, `χ` what may be raised.
inductive Program (ε : Type) (ans : ε → Type) (χ α : Type) where
  | ret (a : α)
  | raise (e : χ)
  | ask (e : ε) (k : ans e → Program ε ans χ α)

namespace Program

variable {ε χ α β σ : Type} {ans : ε → Type}

def bind : Program ε ans χ α → (α → Program ε ans χ β) → Program ε ans χ β
  | ret a, f => f a
  | raise e, _ => raise e
  | ask e k, f => ask e fun a => (k a).bind f

def catches : Program ε ans χ α → (χ → Program ε ans χ α) → Program ε ans χ α
  | ret a, _ => ret a
  | raise e, handler => handler e
  | ask e k, handler => ask e fun a => (k a).catches handler

instance : Monad (Program ε ans χ) where
  pure := ret
  bind := bind

instance : MonadExcept χ (Program ε ans χ) where
  throw := raise
  tryCatch := catches

def query (e : ε) : Program ε ans χ (ans e) := ask e ret

def refuse (c : Prop) [Decidable c] (e : χ) : Program ε ans χ Unit := if c then raise e else ret ()

-- What a routine may ask, given what it has learned, and what it learns from an answer.
structure Protocol (σ : Type) {ε : Type} (ans : ε → Type) where
  permits : σ → ε → Prop
  after : σ → (e : ε) → ans e → σ

-- Every question is permitted when it is put, whatever the answers; at its end the routine has met `post`.
def Follows (π : Protocol σ ans) (post : σ → Except χ α → Prop) : σ → Program ε ans χ α → Prop
  | s, ret a => post s (.ok a)
  | s, raise e => post s (.error e)
  | s, ask e k => π.permits s e ∧ ∀ a, Follows π post (π.after s e a) (k a)

section Rules

variable {π : Protocol σ ans} {s : σ} {e : ε} {x : Program ε ans χ α} {f : α → Program ε ans χ β}
  {post post' : σ → Except χ α → Prop} {goal : σ → Except χ β → Prop}

theorem Follows.weaken (h : Follows π post s x) (hpost : ∀ s out, post s out → post' s out) : Follows π post' s x := by
  induction x generalizing s with
  | ret a => exact hpost s _ h
  | raise e => exact hpost s _ h
  | ask e k ih => exact ⟨h.1, fun a => ih a (h.2 a)⟩

theorem Follows.bind (h : Follows π post s x) (hraise : ∀ s e, post s (.error e) → goal s (.error e))
    (hrest : ∀ s a, post s (.ok a) → Follows π goal s (f a)) : Follows π goal s (x >>= f) := by
  induction x generalizing s with
  | ret a => exact hrest s a h
  | raise e => exact hraise s e h
  | ask e k ih => exact ⟨h.1, fun a => ih a (h.2 a)⟩

theorem Follows.catches {handler : χ → Program ε ans χ α} (h : Follows π post s x)
    (hret : ∀ s a, post s (.ok a) → post' s (.ok a)) (hrest : ∀ s e, post s (.error e) → Follows π post' s (handler e)) :
    Follows π post' s (tryCatch x handler) := by
  induction x generalizing s with
  | ret a => exact hret s a h
  | raise e => exact hrest s e h
  | ask e k ih => exact ⟨h.1, fun a => ih a (h.2 a)⟩

theorem Follows.query {k : ans e → Program ε ans χ β} (he : π.permits s e)
    (hrest : ∀ a, Follows π goal (π.after s e a) (k a)) : Follows π goal s (Program.query e >>= k) := ⟨he, hrest⟩

theorem Follows.refuse {c : Prop} [Decidable c] {err : χ} {k : Program ε ans χ β} (hraise : c → goal s (.error err))
    (hrest : ¬c → Follows π goal s k) : Follows π goal s (Program.refuse c err >>= fun _ => k) := by
  unfold Program.refuse
  by_cases hc : c
  · rw [if_pos hc]
    exact hraise hc
  · rw [if_neg hc]
    exact hrest hc

end Rules

end Program

end Lib
