import DynamicPrompt.Proofs.Agreement
import DynamicPrompt.Source.Transpiler
import Mathlib.Data.List.Infix

/-!
# Passes act through inner texts

Each pass writes its pieces one after the other, and of the text inside a construct it knows only
the rewriting. All that it does to the warnings itself is to add some at the end. So where two ways
to rewrite inner texts agree up to a mark, the passes made of them do, and the nesting limit makes no
difference to them otherwise. A pass compared with itself yields that the rewriting as a whole only
adds warnings.
-/

namespace DynamicPrompt

/-- Warnings are only added, at the end. -/
def Extends (before after : Warnings) : Prop := before <+: after

instance : IsPreorder Warnings Extends where
  refl _ := List.prefix_rfl
  trans _ _ _ := List.IsPrefix.trans

/-- Work that reports only adds warnings, whether it stops or not. -/
abbrev OnlyAdds {α : Type} (work : Reporting α) : Prop := Respects Extends Extends work

/-- A warning is added. -/
theorem onlyAdds_warn (warning : Warning) : OnlyAdds (warn warning) :=
  .modify fun warnings => List.prefix_append warnings [warning]

/-- Checked arithmetic raises no warnings. -/
theorem onlyAdds_checked {α : Type} (result : Option α) : OnlyAdds (checked result) := by
  cases result with
  | none => exact fun _ => List.prefix_rfl
  | some value => exact .pure value

/-- The transpiler with another nesting limit. -/
def Transpiler.withLimit (transpiler : Transpiler) (limit : Nat) : Transpiler :=
  { transpiler with limit }

namespace Source

/-- The argument of a head warns at most of its separator. -/
theorem Head.argument_onlyAdds (head : Option Head) (most : Option Nat) :
    OnlyAdds (Head.argument head most) := by
  unfold Head.argument
  split
  · exact .pure _
  · exact .pure _
  · dsimp only
    split
    · exact .bind (.pure _) fun _ => .pure _
    · split
      · exact .bind (.pure _) fun _ => .pure _
      · exact .bind (onlyAdds_warn _) fun _ => .bind (.pure _) fun _ => .pure _

/-- A glob warns at most of having no matches. -/
theorem Reference.writeGlob_onlyAdds (transpiler : Transpiler) (pattern argument : Text)
    (filter : Option ReferenceFilter) :
    OnlyAdds (Reference.writeGlob transpiler pattern argument filter) := by
  unfold Reference.writeGlob
  dsimp only
  split
  · exact .bind (onlyAdds_warn _) fun _ => .pure _
  · exact .pure _
  · exact .pure _

section Agreeing

variable {marked : Warnings → Warnings → Prop} [Marking Extends Extends marked]

/-- Pieces that are written alike make the same text. -/
theorem writePieces_agrees {α : Type} {write write' : α → Reporting Text}
    (each : ∀ construct, Agrees Extends Extends marked (write construct) (write' construct)) :
    ∀ pieces : List (Piece α),
      Agrees Extends Extends marked (writePieces write pieces) (writePieces write' pieces)
  | [] => .pure []
  | .plain _ :: pieces => .bind (writePieces_agrees each pieces) fun _ => .pure _
  | .notice warning :: pieces =>
    .bind (.itself (onlyAdds_warn warning)) fun _ => writePieces_agrees each pieces
  | .found construct :: pieces =>
    .bind (each construct) fun _ => .bind (writePieces_agrees each pieces) fun _ => .pure _

variable {transpiler : Transpiler} {limit : Nat} {nested nested' : Text → Reporting Text}
  (inner : ∀ text, Agrees Extends Extends marked (nested text) (nested' text))

include inner

/-- Texts inside constructs are filled in alike. -/
theorem Pass.filled_agrees (text : Text) :
    Agrees Extends Extends marked (Pass.filled ⟨transpiler, nested⟩ text)
      (Pass.filled ⟨transpiler.withLimit limit, nested'⟩ text) :=
  .bind (inner text) fun _ => .pure _

/-- Filters are read alike. -/
theorem Reference.readFilter_agrees (raw : Text) :
    Agrees Extends Extends marked (Reference.readFilter ⟨transpiler, nested⟩ raw)
      (Reference.readFilter ⟨transpiler.withLimit limit, nested'⟩ raw) := by
  have shifted (labels : Text) : Agrees Extends Extends marked
      (checked (Reference.shiftPositions labels)) (checked (Reference.shiftPositions labels)) :=
    .itself (onlyAdds_checked _)
  unfold Reference.readFilter
  split
  · exact .bind (inner _) fun _ => .pure _
  · exact .bind (inner _) fun labels => .bind (shifted labels) fun _ => .pure _
  · exact .bind (inner _) fun labels => .bind (shifted labels) fun _ => .pure _

/-- References are written alike. The head of a reference and its glob know nothing of the limit. -/
theorem Reference.write_agrees (content : Text) :
    Agrees Extends Extends marked (Reference.write ⟨transpiler, nested⟩ content)
      (Reference.write ⟨transpiler.withLimit limit, nested'⟩ content) := by
  unfold Reference.write
  split
  next head rest _ =>
  refine .bind (.itself (Head.argument_onlyAdds head none)) fun argument => ?_
  split
  next name raw _ =>
  refine .bind (inner name) fun name => ?_
  have written (filter : Option ReferenceFilter) : Agrees Extends Extends marked
      (if isGlob name && !name.contains '<' then
        Reference.writeGlob transpiler name argument filter
      else pure (Reference.directives (transpiler.inFolder name) argument filter))
      (if isGlob name && !name.contains '<' then
        Reference.writeGlob (transpiler.withLimit limit) name argument filter
      else pure (Reference.directives ((transpiler.withLimit limit).inFolder name) argument
        filter)) := by
    split
    · exact .itself (Reference.writeGlob_onlyAdds _ _ _ _)
    · exact .pure _
  dsimp only
  split
  · exact .bind (.pure none) written
  · next raw _ => exact .bind (.map some (Reference.readFilter_agrees inner raw)) written

/-- All references of a line are written alike. -/
theorem Reference.writeAll_agrees : ∀ (pieces : List (Piece Text)) (held : Text),
    Agrees Extends Extends marked (Reference.writeAll ⟨transpiler, nested⟩ held pieces)
      (Reference.writeAll ⟨transpiler.withLimit limit, nested'⟩ held pieces)
  | [], held => .pure _
  | .plain c :: rest, held => Reference.writeAll_agrees rest (c :: held)
  | .notice warning :: rest, held =>
    .bind (.itself (onlyAdds_warn warning)) fun _ => Reference.writeAll_agrees rest held
  | .found content :: rest, held => by
    unfold Reference.writeAll
    dsimp only
    exact .bind (Reference.write_agrees inner _) fun _ =>
      .bind (Reference.writeAll_agrees rest []) fun _ => .pure _

/-- Variables are written alike. -/
theorem VariableUse.write_agrees (use : VariableUse) :
    Agrees Extends Extends marked (VariableUse.write ⟨transpiler, nested⟩ use)
      (VariableUse.write ⟨transpiler.withLimit limit, nested'⟩ use) := by
  cases use with
  | read name => exact .pure _
  | fallback name text => exact .bind (inner text) fun _ => .pure _
  | assign name mode immediate value =>
    exact .bind (Pass.filled_agrees inner value) fun _ => .pure _

/-- Blocks are written alike. -/
theorem Block.write_agrees (block : Block) :
    Agrees Extends Extends marked (Block.write ⟨transpiler, nested⟩ block)
      (Block.write ⟨transpiler.withLimit limit, nested'⟩ block) := by
  cases block with
  | set name mode evaluate value => exact .bind (Pass.filled_agrees inner value) fun _ => .pure _
  | echo name fallback =>
    cases fallback with
    | none => exact .pure _
    | some fallback => exact .bind (inner fallback) fun _ => .pure _
  | choose branches =>
    refine .bind (.mapM fun branch _ => ?_) fun _ => .pure _
    exact .bind (Pass.filled_agrees inner branch.2) fun _ => .pure _
  | negative atEnd content =>
    cases atEnd with
    | true => exact .bind (inner content) fun _ => .pure _
    | false => exact .bind (inner content) fun _ => .pure _

/-- The blocks of a line are written alike, after the warnings of its markers. -/
theorem Block.rewrite_agrees (line : Text) :
    Agrees Extends Extends marked (Block.rewrite ⟨transpiler, nested⟩ line)
      (Block.rewrite ⟨transpiler.withLimit limit, nested'⟩ line) := by
  unfold Block.rewrite
  split
  next text markers _ =>
  have marked : OnlyAdds (markers.forM fun marker => warn (.markerRemoved marker)) :=
    .forM markers fun _ => onlyAdds_warn _
  exact .bind (.itself marked) fun _ => writePieces_agrees (Block.write_agrees inner) _

/-- Square brackets are written alike. -/
theorem Bracketed.write_agrees (content : Text) :
    Agrees Extends Extends marked (Bracketed.write ⟨transpiler, nested⟩ content)
      (Bracketed.write ⟨transpiler.withLimit limit, nested'⟩ content) := by
  unfold Bracketed.write
  split
  · exact .bind (Pass.filled_agrees inner _) fun _ =>
      .bind (Pass.filled_agrees inner _) fun _ =>
        .bind (Pass.filled_agrees inner _) fun _ => .pure _
  · exact .bind (.mapM fun option _ => Pass.filled_agrees inner option) fun _ => .pure _
  · exact .bind (inner _) fun _ => .pure _

/-- Variants are written alike. -/
theorem Variant.write_agrees (content : Text) :
    Agrees Extends Extends marked (Variant.write ⟨transpiler, nested⟩ content)
      (Variant.write ⟨transpiler.withLimit limit, nested'⟩ content) := by
  unfold Variant.write
  split
  next head body _ =>
  refine .bind (.itself (Head.argument_onlyAdds _ _)) fun argument => ?_
  dsimp only
  split
  · exact .pure _
  · exact .bind (.mapM fun option _ => Pass.filled_agrees inner option) fun _ => .pure _

/-- If inner texts are rewritten alike, so is the text itself. -/
theorem passes_agrees (text : Text) :
    Agrees Extends Extends marked (Transpiler.passes ⟨transpiler, nested⟩ text)
      (Transpiler.passes ⟨transpiler.withLimit limit, nested'⟩ text) :=
  .bind (Reference.writeAll_agrees inner _ _) fun _ =>
    .bind (writePieces_agrees (VariableUse.write_agrees inner) _) fun _ =>
      .bind (Block.rewrite_agrees inner _) fun _ =>
        .bind (writePieces_agrees (Bracketed.write_agrees inner) _) fun _ =>
          writePieces_agrees (Variant.write_agrees inner) _

end Agreeing

/-- The passes only add warnings if the rewriting of inner texts does. -/
theorem passes_onlyAdds {pass : Pass} (nested : ∀ text, OnlyAdds (pass.nested text)) (text : Text) :
    OnlyAdds (Transpiler.passes pass text) := by
  have agrees : Agrees Extends Extends (fun _ _ => False) (Transpiler.passes pass text)
      (Transpiler.passes ⟨pass.transpiler.withLimit pass.transpiler.limit, pass.nested⟩ text) :=
    passes_agrees (fun text => .itself (nested text)) text
  exact agrees.respects

end Source

/-- With any number of levels left, the rewriting only adds warnings. -/
theorem Transpiler.rewriteWithin_onlyAdds (transpiler : Transpiler) (levels : Nat) (text : Text) :
    OnlyAdds (transpiler.rewriteWithin levels text) := by
  induction levels generalizing text with
  | zero => exact .bind (onlyAdds_warn _) fun _ => .pure _
  | succ levels inductionHypothesis => exact Source.passes_onlyAdds inductionHypothesis text

/-- The rewriting of a line only adds warnings. -/
theorem Transpiler.transpile_onlyAdds (transpiler : Transpiler) (line : Text) :
    OnlyAdds (transpiler.transpile line) :=
  transpiler.rewriteWithin_onlyAdds transpiler.limit _

end DynamicPrompt
