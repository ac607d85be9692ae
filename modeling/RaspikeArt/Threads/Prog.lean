import Mathlib.Logic.Function.Basic
import Mathlib.Data.Option.Basic

/-!
# Threads, part 1: programs over shared memory

A thread is a tree of atomic instructions, `Prog L C E σ α`: locks `L`, condition variables `C`,
history labels `E`, shared memory `σ`, result `α`.

* `act e f k`        one indivisible access to the memory; the label `e` is recorded in the
                     history and is never read back by a program;
* `lock`, `unlock`   a mutex;
* `wait c l k`       release `l` and sleep on `c`; the sleep is `blocked`, after a wake-up it is
                     `woken` and has to take `l` again before `k` runs with the wake-up code;
* `broadcast c`      wakes every sleeper on `c`;
* `loop s body k`    runs `body` from `s` until it answers `Sum.inr`.

`Prog` is a monad, so that a function of the program is written as one `do` block.
-/

namespace Threads

inductive Prog (L C E σ : Type) : Type → Type 1 where
  | ret {α : Type} (a : α) : Prog L C E σ α
  | act {α β : Type} (e : σ → Option E) (f : σ → β × σ) (k : β → Prog L C E σ α) :
      Prog L C E σ α
  | lock {α : Type} (l : L) (k : Prog L C E σ α) : Prog L C E σ α
  | unlock {α : Type} (l : L) (k : Prog L C E σ α) : Prog L C E σ α
  | wait {α : Type} (c : C) (l : L) (k : Int → Prog L C E σ α) : Prog L C E σ α
  | blocked {α : Type} (c : C) (l : L) (k : Int → Prog L C E σ α) : Prog L C E σ α
  | woken {α : Type} (l : L) (r : Int) (k : Int → Prog L C E σ α) : Prog L C E σ α
  | broadcast {α : Type} (c : C) (k : Prog L C E σ α) : Prog L C E σ α
  | loop {S α β : Type} (s : S) (body : S → Prog L C E σ (S ⊕ β)) (k : β → Prog L C E σ α) :
      Prog L C E σ α

variable {L C E σ : Type} {α β γ S : Type}

namespace Prog

def bind : Prog L C E σ α → (α → Prog L C E σ β) → Prog L C E σ β
  | .ret a, q => q a
  | .act e f k, q => .act e f fun b => (k b).bind q
  | .lock l k, q => .lock l (k.bind q)
  | .unlock l k, q => .unlock l (k.bind q)
  | .wait c l k, q => .wait c l fun r => (k r).bind q
  | .blocked c l k, q => .blocked c l fun r => (k r).bind q
  | .woken l r k, q => .woken l r fun r => (k r).bind q
  | .broadcast c k, q => .broadcast c (k.bind q)
  | .loop s body k, q => .loop s body fun b => (k b).bind q

instance : Monad (Prog L C E σ) where
  pure := .ret
  bind := .bind

/-- one turn of a loop: run the body, then either go round again or leave -/
def turn (body : S → Prog L C E σ (S ⊕ β)) (k : β → Prog L C E σ α) (s : S) : Prog L C E σ α :=
  (body s).bind fun
    | .inl s' => .loop s' body k
    | .inr b => k b

/-- a sleeper on `c` is woken by a broadcast on `c` -/
def signal [DecidableEq C] (c : C) : Prog L C E σ α → Prog L C E σ α
  | .blocked c' l k => if c' = c then .woken l 0 k else .blocked c' l k
  | p => p

theorem bind_eq (p : Prog L C E σ α) (q : α → Prog L C E σ β) : p >>= q = p.bind q := rfl

end Prog

/-! ## one-instruction programs -/

def tick (e : E) : Prog L C E σ Unit := .act (fun _ => some e) (fun m => ((), m)) .ret

def load (f : σ → α) : Prog L C E σ α := .act (fun _ => none) (fun m => (f m, m)) .ret

def modify (f : σ → σ) : Prog L C E σ Unit := .act (fun _ => none) (fun m => ((), f m)) .ret

def lock (l : L) : Prog L C E σ Unit := .lock l (.ret ())
def unlock (l : L) : Prog L C E σ Unit := .unlock l (.ret ())
def condWait (c : C) (l : L) : Prog L C E σ Int := .wait c l .ret
def broadcast (c : C) : Prog L C E σ Unit := .broadcast c (.ret ())
def loopFrom (s : S) (body : S → Prog L C E σ (S ⊕ β)) : Prog L C E σ β := .loop s body .ret

/-- `x || y`: the right operand is evaluated only when the left one is false -/
def orElse (x y : Prog L C E σ Bool) : Prog L C E σ Bool := do
  if ← x then pure true else y

/-- a counted loop over the elements of a list -/
def forEach {ι : Type} : List ι → (ι → Prog L C E σ Unit) → Prog L C E σ Unit
  | [], _ => pure ()
  | i :: is, body => do
    body i
    forEach is body

end Threads
