import EntityGraph.Failure

/-!
# Log records

What is noted while a function runs. A `Traced` computation has the records that it left behind and
its result; the records before a failure are kept.
-/

namespace EntityGraph

/-- How much a record matters. -/
inductive LogLevel
  | debug
  | info
  | warning
  deriving DecidableEq, Repr

/-- A record of a log. -/
structure LogRecord where
  level : LogLevel
  logger : String
  message : String
  deriving DecidableEq, Repr

namespace LogLevel

/-- The name of a level. -/
def name : LogLevel → String
  | debug => "DEBUG"
  | info => "INFO"
  | warning => "WARNING"

/-- The number of a level. -/
def number : LogLevel → Int
  | debug => 10
  | info => 20
  | warning => 30

end LogLevel

/-- A computation that leaves records behind. -/
structure Traced (α : Type) where
  log : List LogRecord
  result : Except Failure α

namespace Traced

variable {α β : Type}

/-- A result without records. -/
def ofResult (result : Except Failure α) : Traced α := ⟨[], result⟩

/-- A computation followed by another one on its result. -/
def bind (t : Traced α) (f : α → Traced β) : Traced β :=
  match t.result with
  | .ok a => ⟨t.log ++ (f a).log, (f a).result⟩
  | .error e => ⟨t.log, .error e⟩

instance : Monad Traced where
  pure a := ofResult (.ok a)
  bind := bind

instance : MonadLift (Except Failure) Traced where
  monadLift := ofResult

instance : MonadLift (Except Fault) Traced where
  monadLift t := ofResult (t.mapError .fault)

/-- Leaves a record with a message, unless the message cannot be shown. -/
def note (level : LogLevel) (logger : String) (message : Except Fault String) : Traced Unit :=
  match message with
  | .ok text => ⟨[⟨level, logger, text⟩], .ok ()⟩
  | .error f => ⟨[], .error (.fault f)⟩

/-- The result of two computations in a row does not depend on the records. -/
@[simp] theorem result_bind (t : Traced α) (f : α → Traced β) :
    (t >>= f).result = t.result.bind fun a ↦ (f a).result := by
  show (bind t f).result = _
  cases h : t.result <;> simp [bind, h, Except.bind]

/-- A value alone is its own result. -/
@[simp] theorem result_pure (a : α) : (pure a : Traced α).result = .ok a := rfl

/-- A lifted result is the result. -/
@[simp] theorem result_ofResult (result : Except Failure α) : (ofResult result).result = result :=
  rfl

/-- A lifted result leaves no records. -/
@[simp] theorem log_ofResult (result : Except Failure α) : (ofResult result).log = [] := rfl

/-- The result of a lifted computation is its own. -/
@[simp] theorem result_liftM (x : Except Failure α) : (liftM x : Traced α).result = x := rfl

/-- A lifted fault is a failure. -/
@[simp] theorem result_liftM_fault (x : Except Fault α) :
    (liftM x : Traced α).result = x.mapError .fault := rfl

/-- A note whose message can be shown succeeds. -/
@[simp] theorem result_note_ok (level : LogLevel) (logger text : String) :
    (note level logger (.ok text)).result = .ok () := rfl

end Traced

end EntityGraph
