import Mathlib.Logic.Basic

/-!
# Programs that read

A program reads values at addresses of its choice, which may depend on what it
has read.  It runs on fixed contents, or on a server with a state of its own;
when the server hands out the contents, both runs return the same.
-/

set_option autoImplicit false

namespace Reads

inductive Program (Address Value Result : Type) where
  | done (result : Result)
  | read (address : Address) (next : Value → Program Address Value Result)

variable {Address Value Result Other State : Type}

namespace Program

def bind (program : Program Address Value Result)
    (rest : Result → Program Address Value Other) : Program Address Value Other :=
  match program with
  | done result => rest result
  | read address next => read address fun value => (next value).bind rest

instance : Monad (Program Address Value) where
  pure := done
  bind := bind

def get (address : Address) : Program Address Value Value := read address done

def run (contents : Address → Value) : Program Address Value Result → Result
  | done result => result
  | read address next => (next (contents address)).run contents

/-- The addresses that the program reads, in their order. -/
def addresses (contents : Address → Value) : Program Address Value Result → List Address
  | done _ => []
  | read address next => address :: (next (contents address)).addresses contents

/-- The run with a server that may fail. -/
def serve (server : State → Address → Option (Value × State)) :
    Program Address Value Result → State → Option (Result × State)
  | done result, state => some (result, state)
  | read address next, state =>
      (server state address).bind fun answer => (next answer.1).serve server answer.2

@[simp] theorem run_pure (contents : Address → Value) (result : Result) :
    (pure result : Program Address Value Result).run contents = result := rfl

@[simp] theorem run_get (contents : Address → Value) (address : Address) :
    (get address : Program Address Value Value).run contents = contents address := rfl

@[simp] theorem run_bind (contents : Address → Value) (program : Program Address Value Result)
    (rest : Result → Program Address Value Other) :
    (program >>= rest).run contents = (rest (program.run contents)).run contents := by
  induction program with
  | done result => rfl
  | read address next ih => exact ih (contents address)

@[simp] theorem addresses_pure (contents : Address → Value) (result : Result) :
    (pure result : Program Address Value Result).addresses contents = [] := rfl

@[simp] theorem addresses_get (contents : Address → Value) (address : Address) :
    (get address : Program Address Value Value).addresses contents = [address] := rfl

@[simp] theorem addresses_bind (contents : Address → Value)
    (program : Program Address Value Result) (rest : Result → Program Address Value Other) :
    (program >>= rest).addresses contents =
      program.addresses contents ++ (rest (program.run contents)).addresses contents := by
  induction program with
  | done result => rfl
  | read address next ih => exact congrArg (address :: ·) (ih (contents address))

/-- The same reads at other addresses. -/
def relabel {Renamed : Type} (rename : Address → Renamed) :
    Program Address Value Result → Program Renamed Value Result
  | done result => .done result
  | read address next => .read (rename address) fun value => (next value).relabel rename

theorem run_relabel {Renamed : Type} (rename : Address → Renamed) (contents : Renamed → Value)
    (program : Program Address Value Result) :
    (program.relabel rename).run contents = program.run fun address => contents (rename address) := by
  induction program with
  | done result => rfl
  | read address next ih => exact ih (contents (rename address))

theorem addresses_relabel {Renamed : Type} (rename : Address → Renamed)
    (contents : Renamed → Value) (program : Program Address Value Result) :
    (program.relabel rename).addresses contents =
      (program.addresses fun address => contents (rename address)).map rename := by
  induction program with
  | done result => rfl
  | read address next ih =>
      exact congrArg (rename address :: ·) (ih (contents (rename address)))

end Program

/-- From a valid state the server hands out the contents at these addresses. -/
def Serves (server : State → Address → Option (Value × State)) (contents : Address → Value)
    (Valid : State → Prop) (Served : Address → Prop) : Prop :=
  ∀ state address, Valid state → Served address →
    ∃ after, server state address = some (contents address, after) ∧ Valid after

/-- A server that hands out the contents is as good as these for every program. -/
theorem serve_eq_run {server : State → Address → Option (Value × State)}
    {contents : Address → Value} {Valid : State → Prop} {Served : Address → Prop}
    (serves : Serves server contents Valid Served) (program : Program Address Value Result) :
    ∀ state, Valid state → (∀ address ∈ program.addresses contents, Served address) →
      ∃ after, program.serve server state = some (program.run contents, after) ∧ Valid after := by
  induction program with
  | done result => exact fun state valid _ => ⟨state, rfl, valid⟩
  | read address next ih =>
      intro state valid served
      obtain ⟨middle, answer, still⟩ := serves state address valid (served address List.mem_cons_self)
      obtain ⟨after, rest, last⟩ := ih (contents address) middle still
        fun other member => served other (List.mem_cons_of_mem _ member)
      refine ⟨after, ?_, last⟩
      rw [Program.serve, answer, Option.bind_some, rest]
      rfl

/-- The program returns this, and reads only at such addresses. -/
structure Yields (contents : Address → Value) (Served : Address → Prop)
    (program : Program Address Value Result) (result : Result) : Prop where
  run : program.run contents = result
  served : ∀ address ∈ program.addresses contents, Served address

section Yields

variable {contents : Address → Value} {Served : Address → Prop}

theorem yields_pure (result : Result) :
    Yields contents Served (pure result : Program Address Value Result) result :=
  ⟨rfl, by simp⟩

theorem yields_get {address : Address} (served : Served address) :
    Yields contents Served (Program.get address) (contents address) :=
  ⟨rfl, by simpa using served⟩

theorem Yields.bind {program : Program Address Value Result} {result : Result}
    {rest : Result → Program Address Value Other} {other : Other}
    (first : Yields contents Served program result)
    (second : Yields contents Served (rest result) other) :
    Yields contents Served (program >>= rest) other := by
  refine ⟨by rw [Program.run_bind, first.run, second.run], fun address member => ?_⟩
  rw [Program.addresses_bind, first.run, List.mem_append] at member
  rcases member with before | behind
  · exact first.served address before
  · exact second.served address behind

end Yields

/-! ## Programs that may not end -/

/-- A read goes first. -/
theorem serve_get_bind (server : State → Address → Option (Value × State)) (state : State)
    (address : Address) (rest : Value → OptionT (Program Address Value) Other) :
    (OptionT.lift (Program.get address) >>= rest).run.serve server state =
      (server state address).bind fun answer => (rest answer.1).run.serve server answer.2 := rfl

/-- What the program ends with, if it ends. -/
def evaluate (contents : Address → Value) (program : OptionT (Program Address Value) Result) :
    Option Result := program.run.run contents

section Evaluate

variable (contents : Address → Value)

@[simp] theorem evaluate_pure (result : Result) :
    evaluate contents (pure result : OptionT (Program Address Value) Result) = some result := rfl

@[simp] theorem evaluate_bind (program : OptionT (Program Address Value) Result)
    (rest : Result → OptionT (Program Address Value) Other) :
    evaluate contents (program >>= rest) =
      (evaluate contents program).bind fun result => evaluate contents (rest result) := by
  have ran := Program.run_bind contents program.run fun result? =>
    match result? with
    | some result => (rest result).run
    | none => pure none
  refine Eq.trans ran ?_
  rw [evaluate]
  cases program.run.run contents <;> rfl

end Evaluate

/-- The program ends with this, and reads only at such addresses. -/
def Returns (contents : Address → Value) (Served : Address → Prop)
    (program : OptionT (Program Address Value) Result) (result : Result) : Prop :=
  Yields contents Served program.run (some result)

section Returns

variable {contents : Address → Value} {Served : Address → Prop}

theorem returns_pure (result : Result) :
    Returns contents Served (pure result : OptionT (Program Address Value) Result) result :=
  yields_pure (some result)

theorem returns_get {address : Address} (served : Served address) :
    Returns contents Served (OptionT.lift (Program.get address)) (contents address) :=
  (yields_get served).bind (yields_pure _)

theorem Returns.bind {program : OptionT (Program Address Value) Result} {result : Result}
    {rest : Result → OptionT (Program Address Value) Other} {other : Other}
    (first : Returns contents Served program result)
    (second : Returns contents Served (rest result) other) :
    Returns contents Served (program >>= rest) other :=
  Yields.bind first second

theorem Returns.mono {Wider : Address → Prop} (wider : ∀ address, Served address → Wider address)
    {program : OptionT (Program Address Value) Result} {result : Result}
    (returns : Returns contents Served program result) :
    Returns contents Wider program result :=
  ⟨returns.run, fun address member => wider address (returns.served address member)⟩

theorem Returns.relabel {Renamed : Type} {renamed : Renamed → Value} {Allowed : Renamed → Prop}
    {rename : Address → Renamed} {program : OptionT (Program Address Value) Result}
    {result : Result}
    (returns : Returns (fun address => renamed (rename address))
      (fun address => Allowed (rename address)) program result) :
    Returns renamed Allowed (OptionT.mk (program.run.relabel rename)) result := by
  refine ⟨(Program.run_relabel rename renamed program.run).trans returns.run, ?_⟩
  intro address member
  have reads := Program.addresses_relabel rename renamed program.run
  obtain ⟨old, oldMember, rfl⟩ := List.mem_map.mp (reads ▸ member)
  exact returns.served old oldMember

end Returns

end Reads
