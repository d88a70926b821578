import IdlFrontEnd.Proofs.Location
import IdlFrontEnd.Proofs.Token.Lexeme

/-!
# Lexemes in the order of the source

The lexemes of a text lie in one file, and each is over before the next one starts.
-/
namespace IdlFrontEnd

structure InSourceOrder (file : String) (ls : List Lexeme) : Prop where
  file : ∀ l ∈ ls, l.location.file = file
  forward : ∀ l ∈ ls, l.location.start ≤ l.location.stop
  ordered : ls.Pairwise fun a b => a.location.stop ≤ b.location.start

namespace InSourceOrder

variable {file : String} {l : Lexeme} {ls ms : List Lexeme}

theorem sublist (order : InSourceOrder file ls) (part : ms.Sublist ls) : InSourceOrder file ms :=
  ⟨fun l member => order.file l (part.subset member),
    fun l member => order.forward l (part.subset member), order.ordered.sublist part⟩

theorem left (order : InSourceOrder file (ls ++ ms)) : InSourceOrder file ls :=
  order.sublist (List.sublist_append_left ls ms)

theorem right (order : InSourceOrder file (ls ++ ms)) : InSourceOrder file ms :=
  order.sublist (List.sublist_append_right ls ms)

theorem tail (order : InSourceOrder file (l :: ls)) : InSourceOrder file ls :=
  order.sublist (List.sublist_cons_self l ls)

end InSourceOrder

namespace Lexeme

/-- What is laid out from a point on starts there or later, unless counting starts over. -/
theorem place_ordered (file : String) {pieces : List Piece} {point : Point}
    (counted : point.startsOver (pieces.flatMap Piece.text) = false) (comments : String) :
    InSourceOrder file (place file point comments pieces).1 ∧
      ∀ l ∈ (place file point comments pieces).1, point ≤ l.location.start := by
  have ended (p q : Point) (further : p ≤ q) :
      InSourceOrder file [eof file q] ∧ ∀ l ∈ [eof file q], p ≤ l.location.start := by
    refine ⟨⟨?_, ?_, List.pairwise_singleton _ _⟩, ?_⟩
    all_goals simp [eof, further]
  induction pieces generalizing point comments with
  | nil => exact ended point point (le_refl point)
  | cons piece pieces ih =>
    rw [List.flatMap_cons, Point.startsOver_append, Bool.or_eq_false_iff] at counted
    have onward := Point.le_afterAll counted.1
    have rest (waiting : String) := ih counted.2 waiting
    have skip (waiting : String) :
        InSourceOrder file (place file (point.afterAll piece.text) waiting pieces).1 ∧
          ∀ l ∈ (place file (point.afterAll piece.text) waiting pieces).1,
            point ≤ l.location.start :=
      ⟨(rest waiting).1, fun l member => le_trans onward ((rest waiting).2 l member)⟩
    unfold place
    dsimp only
    split
    · exact skip _
    · exact skip _
    · exact skip _
    · exact ended point _ onward
    · exact ended point _ onward
    · exact skip _
    · obtain ⟨⟨own, forward, ordered⟩, later⟩ := rest ""
      refine ⟨⟨?_, ?_, ?_⟩, ?_⟩
      · exact List.forall_mem_cons.2 ⟨rfl, own⟩
      · exact List.forall_mem_cons.2 ⟨onward, forward⟩
      · exact List.pairwise_cons.2 ⟨later, ordered⟩
      · exact List.forall_mem_cons.2 ⟨le_refl point, (skip "").2⟩

theorem ofText_ordered {file text : String} (counted : (ofTextChecked? file text).isSome = true) :
    InSourceOrder file (ofText file text).1 := by
  unfold ofTextChecked? at counted
  dsimp only at counted
  split at counted
  · cases counted
  next never => exact (place_ordered file (Bool.not_eq_true _ ▸ never) "").1

end Lexeme

end IdlFrontEnd
