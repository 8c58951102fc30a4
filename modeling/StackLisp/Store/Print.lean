import StackLisp.Outline
import StackLisp.Store.Container

/-!
Printing of values. A value is first laid out as a finite tree: arrays, records and pointers are
laid out in full wherever they occur, except inside themselves, where a short form stands for them.
-/

namespace StackLisp

def keyWord : Key → String
  | .int n => intWord n
  | .uint n => uintWord n
  | .char c => charText c
  | .bool b => boolWord b
  | .text s => quotedText s
  | .symbol s => s.name ++ ":"

namespace Store

/-- Lays out a value inside the containers `around`, leaving the contents of containers to
`inside`. -/
def outlineWith (store : Store) (inside : List Container → Value → Outline) :
    List Container → Value → Outline
  | _, .nil => .nil
  | _, .endMark => .leaf "<end>"
  | _, .int n => .leaf (intWord n)
  | _, .uint n => .leaf (uintWord n)
  | _, .float x => .leaf x.text
  | _, .char c => .leaf (charText c)
  | _, .bool b => .leaf (boolWord b)
  | _, .text s => .leaf (quotedText s)
  | _, .symbol s => .leaf s.text
  | around, .pair _ head tail =>
    .pair (outlineWith store inside around head) (outlineWith store inside around tail)
  | around, .array ref =>
    if around.contains (.array ref) then .elided "[...]"
    else .array ((store.array ref).toList.map (inside (.array ref :: around)))
  | around, .record ref =>
    if around.contains (.record ref) then .elided "(hash ...)"
    else
      let record := store.record ref
      let title := if record.typeName.isEmpty then [] else [.leaf (quotedText record.typeName)]
      .form "hash" (title ++ record.fields.pairs.flatMap fun field =>
        [.leaf (keyWord field.1), inside (.record ref :: around) field.2])
  | _, .function ref => .leaf ("<fn " ++ (store.function ref).name ++ ">")
  | around, .pointer ref =>
    if around.contains (.pointer ref) then .elided "(ptr ...)"
    else .form "ptr" (store.pointers[ref]?.toList.map (inside (.pointer ref :: around)))
  | _, .reflect _ => .leaf "<reflect>"

/-- A layout that may go down into `fuel` containers. -/
def outlineAt (store : Store) : Nat → List Container → Value → Outline
  | 0, _, _ => .elided "..."
  | fuel + 1, around, value => store.outlineWith (store.outlineAt fuel) around value

def outline (store : Store) (value : Value) : Outline :=
  store.outlineAt (store.depthBound + 1) [] value

def text (store : Store) (value : Value) : String := (store.outline value).text

/-- The text that a program prints for a value: text and characters stand bare. -/
def plainText (store : Store) : Value → String
  | .text s => s
  | .char c => String.ofList [c]
  | other => store.text other

def joined (store : Store) (separator : String) (values : List Value) : String :=
  separator.intercalate (values.map store.plainText)

end Store

end StackLisp
