/-
What a host gives to a program: globals, each a value with the description of
its type, and objects whose methods act on the host's own state.

* `HostMethod`: what a host object does when it is called, a step on the host's
  state;
* `Host`: the globals in the order of their definition, and the objects by
  their handles;
* `Host.define`: adds a global, or replaces the one of the same name in place;
* `Host.addObject`: files an object under a fresh handle;
* `Host.standard`: the host that offers `System.print`.
-/
import Ember.Console
import Ember.Failure
import Ember.Types.Spec
import Ember.Value

namespace Ember

/-- What a method of a host object does with its arguments and the host's state. -/
abbrev HostMethod (σ : Type) := List Value → σ → Except Failure Value × σ

/-- An object that the host supplies. -/
structure HostObject (σ : Type) where
  name : String
  methods : List (Selector × HostMethod σ)

namespace HostObject

variable {σ : Type}

/-- An object without methods. -/
def named (name : String) : HostObject σ := ⟨name, []⟩

/-- Adds a method; it hides an earlier one with the same selector. -/
def withMethod (o : HostObject σ) (s : Selector) (run : HostMethod σ) : HostObject σ :=
  { o with methods := (s, run) :: o.methods }

/-- The method that answers to a selector. -/
def find? (o : HostObject σ) (s : Selector) : Option (HostMethod σ) := o.methods.lookup s

end HostObject

/-- A name that every program may use, with its value and its type. -/
structure Global where
  name : String
  value : Value
  type : TypeSpec

/-- The globals and the objects of a host whose state is a `σ`. -/
structure Host (σ : Type) where
  globals : List Global
  objects : Array (HostObject σ)

namespace Host

variable {σ : Type}

/-- The host that supplies nothing. -/
def empty : Host σ := ⟨[], #[]⟩

/-- Adds a global, or replaces the one of the same name in its place. -/
def define (h : Host σ) (g : Global) : Host σ :=
  { h with globals := putByKey Global.name g h.globals }

/-- The names of the globals, in the order of their definition. -/
def names (h : Host σ) : List String := h.globals.map Global.name

/-- The global of a given name. -/
def global? (h : Host σ) (name : String) : Option Global :=
  findByKey? Global.name name h.globals

/-- Files an object under a fresh handle, the value that stands for it. -/
def addObject (h : Host σ) (o : HostObject σ) : HostHandle × Host σ :=
  (⟨o.name, h.objects.size⟩, { h with objects := h.objects.push o })

/-- The method of a host object that answers to a selector. -/
def findMethod? (h : Host σ) (o : HostHandle) (s : Selector) : Option (HostMethod σ) :=
  (h.objects[o.handle]?).bind fun object => object.find? s

/-! ### The standard host -/

/-- Writes a line to the console that is part of the host's state. -/
def printLine (console : σ → Console) (update : Console → σ → σ) (line : String) (result : Value) :
    σ → Except Failure Value × σ := fun state =>
  match (console state).writeLine line with
  | (true, c) => (.ok result, update c state)
  | (false, c) => (.error (.host "Failed to write output: sink is full"), update c state)

/-- The object `System`: it prints its argument and answers with it, or prints
an empty line and answers with null. -/
def systemObject (console : σ → Console) (update : Console → σ → σ) : HostObject σ :=
  ((HostObject.named "System").withMethod (.method "print" 1) fun arguments =>
    let value := arguments.headD .null
    printLine console update value.display value).withMethod (.getter "print") fun _ =>
    printLine console update "" .null

/-- The type of `System`. -/
def systemType : TypeSpec :=
  .cls [⟨"print", some [.any], .any⟩, ⟨"print", none, .any⟩]

/-- The host that offers `System`, printing on the console within its state. -/
def standard (console : σ → Console) (update : Console → σ → σ) : Host σ :=
  let (system, host) := (empty : Host σ).addObject (systemObject console update)
  host.define ⟨"System", .host system, systemType⟩

end Host

end Ember
