/-!
# Computations that leave a log

A `Logged` computation leaves a log of lines and then succeeds or fails; what is logged before a
failure stays. Main statements: `log_bind_error` and `log_bind_ok`.
-/

namespace QueryCompiler

/-- A log and the outcome after it. -/
structure Logged (ε α : Type) where
  log : List String
  outcome : Except ε α

namespace Logged

variable {ε α β : Type}

/-- An outcome without a log. -/
def lift (x : Except ε α) : Logged ε α := ⟨[], x⟩

/-- One line. -/
def write (line : String) : Logged ε Unit := ⟨[line], .ok ()⟩

def bind (x : Logged ε α) (f : α → Logged ε β) : Logged ε β :=
  match x.outcome with
  | .ok a => ⟨x.log ++ (f a).log, (f a).outcome⟩
  | .error e => ⟨x.log, .error e⟩

instance : Monad (Logged ε) where
  pure a := ⟨[], .ok a⟩
  bind := bind

theorem log_bind_error {x : Logged ε α} {e : ε} (f : α → Logged ε β) (h : x.outcome = .error e) :
    x >>= f = ⟨x.log, .error e⟩ := by
  simp [Bind.bind, bind, h]

theorem log_bind_ok {x : Logged ε α} {a : α} (f : α → Logged ε β) (h : x.outcome = .ok a) :
    x >>= f = ⟨x.log ++ (f a).log, (f a).outcome⟩ := by
  simp [Bind.bind, bind, h]

end Logged

end QueryCompiler
