import Mos6502.Memory

namespace Mos6502

/-- A computation that meets memory one access at a time. Every node but `done` takes one cycle. -/
inductive Bus (α : Type) where
  | done (value : α)
  | read (address : UInt16) (next : UInt8 → Bus α)
  | write (address : UInt16) (value : UInt8) (next : Bus α)
  | idle (next : Bus α)

namespace Bus

variable {α β γ : Type}

protected def bind : Bus α → (α → Bus β) → Bus β
  | done v, f => f v
  | read a next, f => read a fun b => (next b).bind f
  | write a b next, f => write a b (next.bind f)
  | idle next, f => idle (next.bind f)

instance : Monad Bus where
  pure := done
  bind := Bus.bind

/-- What a computation leaves: its value, the memory and the cycles it took. -/
structure Outcome (α : Type) where
  value : α
  memory : Memory
  cycles : Nat

def Outcome.after (o : Outcome α) (cycles : Nat) : Outcome α := { o with cycles := cycles + o.cycles }

def run : Bus α → Memory → Outcome α
  | done v, m => ⟨v, m, 0⟩
  | read a next, m =>
    let b := m.read a
    ((next b).run m).after 1
  | write a b next, m => (next.run (m.write a b)).after 1
  | idle next, m => (next.run m).after 1

theorem bind_eq (p : Bus α) (f : α → Bus β) : p >>= f = p.bind f := rfl

protected theorem bind_done (p : Bus α) : p.bind done = p := by
  induction p with
  | done v => rfl
  | read a next ih => exact congrArg (read a) (funext ih)
  | write a b next ih => exact congrArg (write a b) ih
  | idle next ih => exact congrArg idle ih

protected theorem bind_assoc (p : Bus α) (f : α → Bus β) (g : β → Bus γ) :
    (p.bind f).bind g = p.bind fun v => (f v).bind g := by
  induction p with
  | done v => rfl
  | read a next ih => exact congrArg (read a) (funext ih)
  | write a b next ih => exact congrArg (write a b) ih
  | idle next ih => exact congrArg idle ih

instance : LawfulMonad Bus :=
  LawfulMonad.mk' Bus Bus.bind_done (fun _ _ => rfl) Bus.bind_assoc

/-- One computation after another: the second starts on the memory that the first left, and
the cycles add up. -/
theorem run_bind (p : Bus α) (f : α → Bus β) (m : Memory) :
    (p >>= f).run m = ((f (p.run m).value).run (p.run m).memory).after (p.run m).cycles := by
  simp only [bind_eq]
  induction p generalizing m with
  | done v => simp [Bus.bind, run, Outcome.after]
  | read a next ih => simp [Bus.bind, run, Outcome.after, ih, Nat.add_assoc]
  | write a b next ih => simp [Bus.bind, run, Outcome.after, ih, Nat.add_assoc]
  | idle next ih => simp [Bus.bind, run, Outcome.after, ih, Nat.add_assoc]

end Bus

end Mos6502
