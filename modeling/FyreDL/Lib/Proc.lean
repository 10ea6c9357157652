import Mathlib.Data.List.Nodup

/-!
# FyreDL.Lib.Proc — procedures with a state

A procedure takes a state and leaves another one, whichever way it ends: it returns a
value, throws an exception, or never comes back.

* `catching` — a handler for the exceptions. It starts in the state in which they are
  thrown.
* `seek` — a loop over a list that its body can end. When one element alone concerns the
  body, the loop is the body of this element (`seek_only`).
* `Keeps f p` — whichever way `p` ends, it leaves `f` of the state as it was.
-/

namespace FyreDL.Lib

/-- How a procedure ends. -/
inductive Exit (X α : Type) where
  | ret (a : α)
  | throw (x : X)
  | stuck
deriving DecidableEq, Repr

theorem Exit.ret_ne_stuck {X α : Type} (a : α) : (Exit.ret a : Exit X α) ≠ .stuck := nofun

theorem Exit.throw_ne_stuck {X α : Type} (x : X) : (Exit.throw x : Exit X α) ≠ .stuck := nofun

/-- The same way out, with another value if there is one. -/
def Exit.withValue {X α β : Type} (b : β) : Exit X α → Exit X β
  | .ret _ => .ret b
  | .throw x => .throw x
  | .stuck => .stuck

theorem Exit.withValue_eq_ret {X β : Type} {b : β} {exit : Exit X Unit} :
    exit.withValue b = .ret b ↔ exit = .ret () := by
  cases exit <;> simp [Exit.withValue]

theorem Exit.withValue_eq_stuck {X α β : Type} {b : β} {exit : Exit X α} :
    exit.withValue b = .stuck ↔ exit = .stuck := by
  cases exit <;> simp [Exit.withValue]

/-- A procedure on states `S` with exceptions `X`. -/
def Proc (S X α : Type) := S → Exit X α × S

namespace Proc

variable {S X α β : Type}

def ret (a : α) : Proc S X α := fun s => (.ret a, s)

def throw (x : X) : Proc S X α := fun s => (.throw x, s)

def bind (p : Proc S X α) (f : α → Proc S X β) : Proc S X β := fun s =>
  match p s with
  | (.ret a, s') => f a s'
  | (.throw x, s') => (.throw x, s')
  | (.stuck, s') => (.stuck, s')

instance : Monad (Proc S X) where
  pure := ret
  bind := bind

/-- The state. -/
def state : Proc S X S := fun s => (.ret s, s)

/-- Change the state. -/
def modify (f : S → S) : Proc S X Unit := fun s => (.ret (), f s)

/-- `try { p } catch (x) { handler x }`. -/
def catching (p : Proc S X α) (handler : X → Proc S X α) : Proc S X α := fun s =>
  match p s with
  | (.throw x, s') => handler x s'
  | r => r

/-- The loop over a list that ends when its body returns `true`. -/
def seek (body : β → Proc S X Bool) : List β → Proc S X Unit
  | [] => ret ()
  | b :: rest => do
    let done ← body b
    if done then ret () else seek body rest

variable {p : Proc S X α} {f : α → Proc S X β} {s s' : S}

@[simp] theorem ret_apply (a : α) (s : S) : (ret a : Proc S X α) s = (.ret a, s) := rfl

@[simp] theorem pure_apply (a : α) (s : S) : (pure a : Proc S X α) s = (.ret a, s) := rfl

@[simp] theorem throw_apply (x : X) (s : S) : (throw x : Proc S X α) s = (.throw x, s) := rfl

@[simp] theorem state_bind (f : S → Proc S X β) (s : S) : (state >>= f) s = f s s := rfl

@[simp] theorem modify_bind (g : S → S) (f : Unit → Proc S X β) (s : S) :
    (modify g >>= f) s = f () (g s) := rfl

theorem bind_ret {a : α} (h : p s = (.ret a, s')) (f : α → Proc S X β) :
    (p >>= f) s = f a s' := by
  change bind p f s = _
  rw [bind, h]

theorem bind_throw {x : X} (h : p s = (.throw x, s')) (f : α → Proc S X β) :
    (p >>= f) s = (.throw x, s') := by
  change bind p f s = _
  rw [bind, h]

theorem bind_stuck (h : p s = (.stuck, s')) (f : α → Proc S X β) :
    (p >>= f) s = (.stuck, s') := by
  change bind p f s = _
  rw [bind, h]

theorem bind_pure_value (p : Proc S X α) (b : β) (s : S) :
    (p >>= fun _ => pure b) s = ((p s).1.withValue b, (p s).2) := by
  change bind p (fun _ => ret b) s = _
  rw [bind]
  rcases p s with ⟨exit, s'⟩
  cases exit <;> rfl

/-- A sequence that returns has returned from both parts. -/
theorem bind_eq_ret {b : β} {t : S} (h : (p >>= f) s = (.ret b, t)) :
    ∃ a s₁, p s = (.ret a, s₁) ∧ f a s₁ = (.ret b, t) := by
  change bind p f s = _ at h
  rw [bind] at h
  rcases hp : p s with ⟨exit, s₁⟩
  rw [hp] at h
  cases exit with
  | ret a => exact ⟨a, s₁, rfl, h⟩
  | throw x => cases h
  | stuck => cases h

theorem catching_ret {a : α} (h : p s = (.ret a, s')) (handler : X → Proc S X α) :
    catching p handler s = (.ret a, s') := by
  rw [catching, h]

theorem catching_throw {x : X} (h : p s = (.throw x, s')) (handler : X → Proc S X α) :
    catching p handler s = handler x s' := by
  rw [catching, h]

theorem catching_stuck (h : p s = (.stuck, s')) (handler : X → Proc S X α) :
    catching p handler s = (.stuck, s') := by
  rw [catching, h]

/-- A loop whose body concerns no element does nothing. -/
theorem seek_none {body : β → Proc S X Bool} {l : List β}
    (h : ∀ b ∈ l, ∀ s, body b s = (.ret false, s)) (s : S) : seek body l s = (.ret (), s) := by
  induction l with
  | nil => rfl
  | cons b l ih =>
    rw [seek, bind_ret (h b List.mem_cons_self s)]
    exact ih fun c hc => h c (List.mem_cons_of_mem _ hc)

/-- **One element.** When the body concerns one element of a list without duplicates, the
loop is the body of this element. -/
theorem seek_only {body : β → Proc S X Bool} {l : List β} (hnodup : l.Nodup) {b : β} (hb : b ∈ l)
    (h : ∀ c ∈ l, c ≠ b → ∀ s, body c s = (.ret false, s)) (s : S) :
    seek body l s = (body b >>= fun _ => ret ()) s := by
  induction l with
  | nil => exact absurd hb List.not_mem_nil
  | cons c l ih =>
    rw [List.nodup_cons] at hnodup
    by_cases hc : c = b
    · subst hc
      -- the rest does not concern the body
      have hrest : ∀ s, seek body l s = (.ret (), s) := by
        apply seek_none
        intro d hd
        apply h d (List.mem_cons_of_mem _ hd)
        rintro rfl
        exact hnodup.1 hd
      have hcont : (fun done : Bool => if done then (ret () : Proc S X Unit) else seek body l) =
          fun _ => ret () := by
        funext done
        cases done with
        | true => rfl
        | false => exact funext hrest
      rw [seek, hcont]
    · have hin : b ∈ l := (List.mem_cons.mp hb).resolve_left fun heq => hc heq.symm
      rw [seek, bind_ret (h c List.mem_cons_self hc s)]
      exact ih hnodup.2 hin fun d hd => h d (List.mem_cons_of_mem _ hd)

/-! ## Keeping a part of the state -/

/-- The procedure leaves this part of the state as it is, whichever way it ends. -/
def Keeps {γ : Type} (f : S → γ) (p : Proc S X α) : Prop := ∀ s, f (p s).2 = f s

section Keeps

variable {γ : Type} {f : S → γ}

theorem Keeps.ret (a : α) : Keeps f (ret a : Proc S X α) := fun _ => rfl

theorem Keeps.throw (x : X) : Keeps f (throw x : Proc S X α) := fun _ => rfl

theorem Keeps.state : Keeps f (state : Proc S X S) := fun _ => rfl

theorem Keeps.modify {g : S → S} (h : ∀ s, f (g s) = f s) :
    Keeps f (modify g : Proc S X Unit) := h

theorem Keeps.bind {p : Proc S X α} (hp : Keeps f p) {q : α → Proc S X β}
    (hq : ∀ a, Keeps f (q a)) : Keeps f (p >>= q) := by
  intro s
  have hkept := hp s
  change f (Proc.bind p q s).2 = f s
  rw [Proc.bind]
  rcases hrun : p s with ⟨exit, s'⟩
  rw [hrun] at hkept
  cases exit with
  | ret a => exact (hq a s').trans hkept
  | throw x => exact hkept
  | stuck => exact hkept

theorem Keeps.catching {p : Proc S X α} (hp : Keeps f p) {handler : X → Proc S X α}
    (hhandler : ∀ x, Keeps f (handler x)) : Keeps f (catching p handler) := by
  intro s
  have hkept := hp s
  rw [Proc.catching]
  rcases hrun : p s with ⟨exit, s'⟩
  rw [hrun] at hkept
  cases exit with
  | ret a => exact hkept
  | throw x => exact (hhandler x s').trans hkept
  | stuck => exact hkept

theorem Keeps.seek {body : β → Proc S X Bool} (h : ∀ b, Keeps f (body b)) (l : List β) :
    Keeps f (seek body l) := by
  induction l with
  | nil => exact Keeps.ret ()
  | cons b l ih =>
    refine (h b).bind ?_
    intro done
    cases done with
    | true => exact Keeps.ret ()
    | false => exact ih

end Keeps

end Proc

end FyreDL.Lib
