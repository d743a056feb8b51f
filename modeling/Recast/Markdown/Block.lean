import Recast.Text.Basic

/-! # Blocks

A page is a tree of blocks: paragraphs, lists, tables and so on. Each block has a text,
then inner blocks, and each of these may have a tail, the text behind it.
-/

namespace Recast.Markdown

/-- What kind of element a block is. -/
inductive BlockKind where
  | page
  | paragraph
  | heading (level : Nat)
  | rule
  | quote
  | bullets
  | numbers
  | item
  /-- Code, with its line breaks. -/
  | listing
  | table
  | tableHead
  | tableBody
  | row
  /-- A cell of a table, with the side its text keeps to. -/
  | cell (isHead : Bool) (side : Option Text)
  deriving DecidableEq, Repr

def BlockKind.isList (kind : BlockKind) : Bool := kind == .bullets || kind == .numbers

/-- A block. -/
inductive Block where
  | mk (kind : BlockKind) (text : Text) (inner : List (Block × Text))
  deriving Repr

instance : Inhabited Block := ⟨.mk .page [] []⟩

namespace Block

def kind : Block → BlockKind
  | .mk kind _ _ => kind

def text : Block → Text
  | .mk _ text _ => text

def inner : Block → List (Block × Text)
  | .mk _ _ inner => inner

def leaf (kind : BlockKind) (text : Text) : Block := .mk kind text []

def withText (b : Block) (text : Text) : Block := .mk b.kind text b.inner

def withInner (b : Block) (inner : List (Block × Text)) : Block := .mk b.kind b.text inner

def last? (b : Block) : Option Block := b.inner.getLast?.map (·.1)

def add (b inner : Block) : Block := b.withInner (b.inner ++ [(inner, [])])

/-- Change the last inner block and its tail. -/
def mapLast (f : Block × Text → Block × Text) (b : Block) : Block :=
  b.withInner (b.inner.mapIdx fun i child => if i + 1 = b.inner.length then f child else child)

/-- Move the text of a block into a paragraph of its own. -/
def loosen (b : Block) : Block :=
  if b.text.isEmpty then b else .mk b.kind [] ((leaf .paragraph b.text, []) :: b.inner)

/-- Move the tail of the last inner block into a paragraph of its own. `tidy` is applied to
    the text of the paragraph. -/
def loosenTail (tidy : Text → Text) (b : Block) : Block :=
  match b.inner.getLast? with
  | some (child, tail) =>
    if tail.isEmpty then b
    else b.withInner (b.inner.dropLast ++ [(child, []), (leaf .paragraph (tidy tail), [])])
  | none => b

end Block
end Recast.Markdown
