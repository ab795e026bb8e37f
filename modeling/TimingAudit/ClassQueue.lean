import TimingAudit.Failure
import TimingAudit.InputClass
import TimingAudit.Text.Blank

/-!
# The queue of classes to run

Classes are run first in, first out. A queue is read from a text of class names separated by blanks;
one unknown name refuses the whole text.
-/

namespace TimingAudit

section OnceEach

variable {α : Type} [DecidableEq α]

/-- Adds an element behind those kept so far, unless it is among them. -/
def pushNew (kept : List α) (x : α) : List α := if x ∈ kept then kept else kept ++ [x]

/-- The elements of a list, each listed once, where it first occurs. -/
def onceEach (xs : List α) : List α := xs.foldl pushNew []

end OnceEach

/-- The classes still to run, oldest first. -/
structure ClassQueue where
  toList : List InputClass
deriving DecidableEq

namespace ClassQueue

/-- The queue with nothing to run. -/
def empty : ClassQueue := ⟨[]⟩

/-- The classes with the given names, or the first name that names none. -/
def classesOfNames : List String → Except Failure (List InputClass)
  | [] => .ok []
  | s :: names =>
    match InputClass.ofName? s with
    | none => .error (.unknownClass s)
    | some k =>
      match classesOfNames names with
      | .error f => .error f
      | .ok ks => .ok (k :: ks)

/-- Reads class names separated by blanks. -/
def parse (text : String) : Except Failure ClassQueue :=
  (classesOfNames (Text.words text)).map ClassQueue.mk

/-- Adds a class behind all others. -/
def enqueue (q : ClassQueue) (k : InputClass) : ClassQueue := ⟨q.toList ++ [k]⟩

/-- Takes the oldest class. -/
def dequeue? (q : ClassQueue) : Option (InputClass × ClassQueue) :=
  match q.toList with
  | [] => none
  | k :: ks => some (k, ⟨ks⟩)

/-- The number of classes still to run. -/
def length (q : ClassQueue) : Nat := q.toList.length

/-- Whether nothing is left to run. -/
def isEmpty (q : ClassQueue) : Bool := q.toList.isEmpty

/-- The queued classes, each listed once, where it first occurs. -/
def distinct (q : ClassQueue) : List InputClass := onceEach q.toList

end ClassQueue

end TimingAudit
