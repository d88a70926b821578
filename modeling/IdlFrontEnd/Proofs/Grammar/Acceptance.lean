import IdlFrontEnd.Proofs.Grammar.SourceFile

/-!
# Acceptance

Reading a list of lexemes that the end of the file closes is silent exactly if the grammar derives a
file from them, and then it gives that file. Recovery after a mistake cannot turn what is no file
into a silent result, and no file is rejected for want of lookahead.
-/
namespace IdlFrontEnd.Grammar

/-- The one end of the file marks how far the lexemes before it reach. -/
theorem taken_eq {ls taken rest : List Lexeme} {last : Lexeme} (inside : ∀ l ∈ ls, l.token ≠ .eof)
    (closing : last.token = .eof) (whole : ls ++ [last] = taken ++ rest)
    (takenInside : ∀ l ∈ taken, l.token ≠ .eof) (ended : nextToken rest = .eof) : taken = ls := by
  rcases List.append_eq_append_iff.1 whole with ⟨more, rfl, tail⟩ | ⟨more, rfl, tail⟩
  · cases more with
    | nil => simp
    | cons l more =>
      obtain ⟨rfl, -⟩ := List.cons.inj tail
      exact absurd closing (takenInside last (by simp))
  · cases more with
    | nil => simp
    | cons l more =>
      subst tail
      exact absurd ended (inside l (by simp))

theorem ofLexemes_sound {ls : List Lexeme} {last : Lexeme} (inside : ∀ l ∈ ls, l.token ≠ .eof)
    (closing : last.token = .eof) (silent : (SourceFile.ofLexemes (ls ++ [last])).2 = []) :
    IsFile ls (SourceFile.ofLexemes (ls ++ [last])).1 := by
  unfold SourceFile.ofLexemes at silent ⊢
  cases h : sourceFile ⟨ls ++ [last], .nowhere, []⟩ with
  | error e => cases e
  | ok file next =>
    rw [h] at silent
    obtain ⟨⟨taken, took, derived⟩, ended⟩ := sourceFile_sound h silent
    rw [token_eq_nextToken] at ended
    rwa [taken_eq inside closing took.rest took.inside ended] at derived

theorem ofLexemes_complete {ls : List Lexeme} {last : Lexeme} {file : SourceFile}
    (closing : last.token = .eof) (derived : IsFile ls file) :
    (SourceFile.ofLexemes (ls ++ [last])).2 = [] ∧
      (SourceFile.ofLexemes (ls ++ [last])).1.unplaced = file.unplaced := by
  obtain ⟨found, h, alike⟩ := sourceFile_complete ls file [last] .nowhere [] derived closing
  unfold SourceFile.ofLexemes
  rw [h]
  exact ⟨rfl, alike⟩

/-- The result of reading a closed list of lexemes, against the grammar: silence is derivability,
what is read in silence is derived, and every derivation gives the same package, imports and
declarations. -/
theorem ofLexemes_accepts (ls : List Lexeme) (last : Lexeme) (inside : ∀ l ∈ ls, l.token ≠ .eof)
    (closing : last.token = .eof) :
    ((SourceFile.ofLexemes (ls ++ [last])).2 = [] ↔ ∃ file, IsFile ls file) ∧
      ((SourceFile.ofLexemes (ls ++ [last])).2 = [] →
        IsFile ls (SourceFile.ofLexemes (ls ++ [last])).1) ∧
      ∀ file, IsFile ls file →
        (SourceFile.ofLexemes (ls ++ [last])).1.unplaced = file.unplaced := by
  refine ⟨⟨?_, ?_⟩, ofLexemes_sound inside closing, ?_⟩
  · intro silent
    exact ⟨_, ofLexemes_sound inside closing silent⟩
  · rintro ⟨file, derived⟩
    exact (ofLexemes_complete closing derived).1
  · intro file derived
    exact (ofLexemes_complete closing derived).2

/-- `import a.B; @utf8 interface I { oneway void f(in B[] x) = 3; }` is a file. -/
theorem interface_derivable :
    ∃ file, IsFile
      (([.word "import", .word "a", .mark .dot, .word "B", .mark .semicolon, .mark .at,
        .word "utf8", .word "interface", .word "I", .mark .openBrace, .word "oneway",
        .word "void", .word "f", .mark .openParen, .word "in", .word "B", .mark .openBracket,
        .mark .closeBracket, .word "x", .mark .closeParen, .mark .equals, .number "3",
        .mark .semicolon, .mark .closeBrace] : List Token).map fun t => ⟨t, .nowhere, ""⟩) file :=
  (ofLexemes_accepts _ (.eof "I.aidl" ⟨1, 1⟩) (by decide) rfl).1.1 (by decide +kernel)

end IdlFrontEnd.Grammar
