/-
The frames of a running program. A frame is shared by every environment that
sees it, so that a write through one is seen through all.

* `Frame`: the slots bound in one activation of a scope;
* `Heap`: all frames, each at its address. Frames are only ever added;
* `Heap.newRoot`, `Heap.newChild`: a fresh frame, on its own or inside an
  environment;
* `Heap.declare`: binds a slot in the innermost frame;
* `Heap.get?`, `Heap.assign?`: read and write the nearest binding of a slot.
-/
import Ember.Value

namespace Ember

/-- The slots bound in one activation of a scope. -/
abbrev Frame := List (Slot × Value)

namespace Frame

/-- The value of a slot. -/
def get? (f : Frame) (s : Slot) : Option Value := (findByKey? Prod.fst s f).map Prod.snd

/-- Binds a slot, replacing its earlier value. -/
def put (s : Slot) (v : Value) (f : Frame) : Frame := putByKey Prod.fst (s, v) f

/-- A slot reads what has been put into it. -/
theorem get?_put_self (s : Slot) (v : Value) (f : Frame) : (f.put s v).get? s = some v := by
  rw [get?, put, findByKey?_putByKey_self Prod.fst (s, v) f]
  rfl

/-- The other slots read what they did. -/
theorem get?_put_of_ne {s t : Slot} (h : s ≠ t) (v : Value) (f : Frame) :
    (f.put s v).get? t = f.get? t := by
  rw [get?, put, findByKey?_putByKey_of_ne Prod.fst (s, v) f h, get?]

end Frame

/-- All frames of a run, each at its address. -/
structure Heap where
  frames : Array Frame

namespace Heap

/-- The heap before anything runs. -/
def empty : Heap := ⟨#[]⟩

/-- The frame at an address. -/
def frame (h : Heap) (a : Address) : Frame := h.frames.getD a []

/-- A fresh frame with nothing around it. -/
def newRoot (h : Heap) : Environment × Heap :=
  (⟨h.frames.size, []⟩, ⟨h.frames.push []⟩)

/-- A fresh frame inside an environment. -/
def newChild (h : Heap) (e : Environment) : Environment × Heap :=
  (e.inside h.frames.size, ⟨h.frames.push []⟩)

/-- Binds a slot in the frame at an address. -/
def putAt (h : Heap) (a : Address) (s : Slot) (v : Value) : Heap :=
  ⟨h.frames.modify a (Frame.put s v)⟩

/-- Binds a slot in the innermost frame of an environment. -/
def declare (h : Heap) (e : Environment) (s : Slot) (v : Value) : Heap := h.putAt e.own s v

/-- Whether the frame at an address binds a slot. -/
def binds (h : Heap) (s : Slot) (a : Address) : Bool := ((h.frame a).get? s).isSome

/-- The address of the nearest frame that binds a slot. -/
def nearest? (h : Heap) (e : Environment) (s : Slot) : Option Address :=
  e.chain.find? (h.binds s)

/-- The value of the nearest binding of a slot. -/
def get? (h : Heap) (e : Environment) (s : Slot) : Option Value :=
  e.chain.findSome? fun a => (h.frame a).get? s

/-- Overwrites the nearest binding of a slot, if there is one. -/
def assign? (h : Heap) (e : Environment) (s : Slot) (v : Value) : Option Heap :=
  (h.nearest? e s).map fun a => h.putAt a s v

end Heap

end Ember
