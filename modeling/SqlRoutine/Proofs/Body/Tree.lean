import SqlRoutine.Body.Step
import SqlRoutine.Proofs.Body.Line
import SqlRoutine.Proofs.Body.Simple

/-! # Structured programs

Programs as trees: simple lines, `If` with branches that are single lines or blocks, and `While`
with a block. `Program.source` prints a tree for SQL Server and `Program.render` for PL/pgSQL, one
construct a line. No rendered line is blank (`Program.isBlank_render`), so each of them adds a line
to a body. -/

namespace SqlRoutine.Body

open List

/-! ### Trees -/

mutual

/-- **A construct**: a line, or control flow whose own lines share one indentation. -/
inductive Construct where
  | simple (line : SimpleLine)
  | conditional (w : Indentation) (condition : Phrase) (branch : Branch) (tail : Tail)
  | loop (w : Indentation) (condition : Phrase) (body : Program)

/-- **A branch**: one line, or a block. -/
inductive Branch where
  | single (line : SimpleLine)
  | block (body : Program)

/-- What comes after the first branch. -/
inductive Tail where
  | close
  | otherwise (branch : Branch)

/-- **A program**: constructs one after another. -/
inductive Program where
  | empty
  | next (first : Construct) (others : Program)

end

/-- The first word of a block. -/
def Block.keyword : Block → Text
  | .ifBlock => "If".toList
  | .whileLoop => "While".toList

/-- The word after the condition in PL/pgSQL. -/
def Block.opening : Block → Text
  | .ifBlock => "Then".toList
  | .whileLoop => "Loop".toList

/-- The end of the block in PL/pgSQL. -/
def Block.closing : Block → Text
  | .ifBlock => "End If;".toList
  | .whileLoop => "End Loop;".toList

/-- The line with the condition for SQL Server, where the condition has been changed by `f`. -/
def Block.head (b : Block) (f : Text → Text) (w : Indentation) (c : Phrase) : Text :=
  w.text ++ (b.keyword ++ ' ' :: f c.text)

/-- The line with the condition for PL/pgSQL. -/
def Block.renderHead (p : Profile) (b : Block) (w : Indentation) (c : Phrase) : Text :=
  w.text ++ (b.keyword ++
    ' ' :: ((Expression.convert p (Expression.literal p c.text)).value ++ ' ' :: b.opening))

/-- The lines of a block between `Begin` and `End`. -/
def enclosed (w : Indentation) (lines : List Text) : List Text :=
  (w.text ++ "Begin".toList) :: (lines ++ [w.text ++ "End".toList])

mutual

/-- The lines of a construct for SQL Server. -/
def Construct.source : Construct → List Text
  | .simple line => [line.source]
  | .conditional w c branch tail => Block.ifBlock.head id w c :: (branch.source w ++ tail.source w)
  | .loop w c body => Block.whileLoop.head id w c :: enclosed w body.source

/-- The lines of a branch for SQL Server. -/
def Branch.source (w : Indentation) : Branch → List Text
  | .single line => [line.source]
  | .block body => enclosed w body.source

/-- The lines after the first branch for SQL Server. -/
def Tail.source (w : Indentation) : Tail → List Text
  | .close => []
  | .otherwise branch => (w.text ++ "Else".toList) :: branch.source w

/-- **The lines of a program for SQL Server.** -/
def Program.source : Program → List Text
  | .empty => []
  | .next first others => first.source ++ others.source

end

mutual

/-- The lines of a construct for PL/pgSQL. -/
def Construct.render (p : Profile) : Construct → List Text
  | .simple line => [line.render p]
  | .conditional w c branch tail =>
    Block.ifBlock.renderHead p w c :: (branch.render p ++ tail.render p w)
  | .loop w c body =>
    Block.whileLoop.renderHead p w c :: (body.render p ++ [w.text ++ Block.whileLoop.closing])

/-- The lines of a branch for PL/pgSQL. A single line is terminated once more. -/
def Branch.render (p : Profile) : Branch → List Text
  | .single line => [Code.addTerminator (line.render p)]
  | .block body => body.render p

/-- The lines after the first branch for PL/pgSQL. -/
def Tail.render (p : Profile) (w : Indentation) : Tail → List Text
  | .close => [w.text ++ Block.ifBlock.closing]
  | .otherwise branch =>
    (w.text ++ "Else".toList) :: (branch.render p ++ [w.text ++ Block.ifBlock.closing])

/-- **The lines of a program for PL/pgSQL.** -/
def Program.render (p : Profile) : Program → List Text
  | .empty => []
  | .next first others => first.render p ++ others.render p

end

variable {p : Profile}

/-! ### Rendered lines -/

theorem isBlank_of_visibleWord {t : Text} (h : isVisibleWord t) (w : Text) :
    Text.isBlank (w ++ t) = false := by
  cases t with
  | nil => cases h
  | cons c cs =>
    rw [isVisibleWord, head?_cons, Option.any_some, Bool.not_eq_true'] at h
    simp [h]

theorem Block.isVisibleWord_keyword (b : Block) (t : Text) : isVisibleWord (b.keyword ++ t) := by
  cases b <;> rfl

theorem Block.isBlank_closing (b : Block) (w : Text) : Text.isBlank (w ++ b.closing) = false :=
  isBlank_of_visibleWord (by cases b <;> rfl) w

theorem SimpleLine.isBlank_render (l : SimpleLine) : (l.render p).isBlank = false :=
  isBlank_of_visibleWord (by cases l.statement <;> rfl) l.indent.text

mutual

theorem Construct.isBlank_render : ∀ (c : Construct), ∀ line ∈ c.render p, line.isBlank = false
  | .simple l => by
    rw [Construct.render]
    exact forall_mem_singleton.mpr l.isBlank_render
  | .conditional w c branch tail => by
    rw [Construct.render]
    exact forall_mem_cons.mpr
      ⟨isBlank_of_visibleWord (Block.ifBlock.isVisibleWord_keyword _) _,
        forall_mem_append.mpr ⟨branch.isBlank_render, tail.isBlank_render w⟩⟩
  | .loop w c body => by
    rw [Construct.render]
    exact forall_mem_cons.mpr
      ⟨isBlank_of_visibleWord (Block.whileLoop.isVisibleWord_keyword _) _,
        forall_mem_append.mpr ⟨body.isBlank_render,
          forall_mem_singleton.mpr (Block.whileLoop.isBlank_closing _)⟩⟩

theorem Branch.isBlank_render : ∀ (b : Branch), ∀ line ∈ b.render p, line.isBlank = false
  | .single l => by
    rw [Branch.render]
    exact forall_mem_singleton.mpr (isBlank_addTerminator l.isBlank_render)
  | .block body => by
    rw [Branch.render]
    exact body.isBlank_render

theorem Tail.isBlank_render (w : Indentation) : ∀ (t : Tail), ∀ line ∈ t.render p w,
    line.isBlank = false
  | .close => by
    rw [Tail.render]
    exact forall_mem_singleton.mpr (Block.ifBlock.isBlank_closing _)
  | .otherwise branch => by
    rw [Tail.render]
    exact forall_mem_cons.mpr ⟨isBlank_of_visibleWord rfl _,
      forall_mem_append.mpr ⟨branch.isBlank_render,
        forall_mem_singleton.mpr (Block.ifBlock.isBlank_closing _)⟩⟩

/-- **No rendered line is blank.** -/
theorem Program.isBlank_render : ∀ (prog : Program), ∀ line ∈ prog.render p, line.isBlank = false
  | .empty => by
    rw [Program.render]
    exact fun _ h => absurd h not_mem_nil
  | .next first others => by
    rw [Program.render]
    exact forall_mem_append.mpr ⟨first.isBlank_render, others.isBlank_render⟩

end

end SqlRoutine.Body
