import IdlFrontEnd.ApiText
import IdlFrontEnd.Proofs.Grammar.Acceptance
import IdlFrontEnd.Proofs.Grammar.Shown

/-!
# Declarations read back

The text that a declaration is shown with is read as a declaration that says the same. A member is
shown on one line, and a declaration as a block of lines; how deep the block is indented makes no
difference to its tokens.
-/
namespace IdlFrontEnd.Grammar

open Piece (Apart Line)

/-! ## Members -/

/-- A default as a field shows it. -/
def defaultText (v : Option Literal) : String := (v.map fun v => " = " ++ v.value.text).getD ""

theorem default_shown {v : Option Literal} (spelled : ∀ w ∈ v, w.value.Spelled) :
    Shows IsDefault (Option.map Literal.essence) (defaultText v) (v.map Literal.essence) := by
  cases v with
  | none =>
    refine ⟨[], fun rest us _ others => others, ?_⟩
    intro ls tokens
    rw [List.map_eq_nil_iff.1 tokens]
    exact ⟨none, .absent, rfl⟩
  | some w =>
    obtain ⟨ts, writes, derives⟩ := literal_shown (spelled w rfl)
    refine ⟨.mark .equals :: ts, ?_, ?_⟩
    · intro rest us apart others
      have value := Line.space (.mark .equals (.space (writes rest us apart others)))
      simpa [defaultText, Mark.char] using value
    · intro ls tokens
      obtain ⟨eq, tail, rfl, opening, tokens⟩ := List.map_eq_cons_iff.1 tokens
      obtain ⟨found, derived, same⟩ := derives tail tokens
      exact ⟨some found, .present opening derived, congrArg some same⟩

theorem apart_default (v : Option Literal) {rest : List Char} (apart : Apart rest) :
    Apart ((defaultText v).toList ++ rest) := by
  cases v with
  | none => exact apart
  | some w =>
    rw [defaultText, Option.map_some, Option.getD_some, String.toList_append, List.append_assoc]
    exact apart_space _

theorem field_shown {f : Field} (spelled : f.Spelled) :
    Shows IsField Field.essence (Declaration.fieldLine f) f.essence := by
  obtain ⟨ts, writesType, derivesType⟩ := type_shown spelled.type
  obtain ⟨ns, writesName, derivesName⟩ := identifier_shown spelled.name
  obtain ⟨vs, writesDefault, derivesDefault⟩ := default_shown spelled.default
  refine ⟨ts ++ (ns ++ (vs ++ [.mark .semicolon])), ?_, ?_⟩
  · intro rest us apart others
    have semicolon : Apart (';' :: rest) := apart_mark .semicolon rest
    have value := writesDefault _ _ semicolon (.mark .semicolon others)
    have name := writesName _ _ (apart_default f.default semicolon) value
    have whole := writesType _ _ (apart_space _) (.space name)
    simpa [Declaration.fieldLine, Field.signature, defaultText] using whole
  · intro ls tokens
    obtain ⟨types, tail, rfl, first, tokens⟩ := List.map_eq_append_iff.1 tokens
    obtain ⟨names, tail, rfl, second, tokens⟩ := List.map_eq_append_iff.1 tokens
    obtain ⟨values, last, rfl, third, fourth⟩ := List.map_eq_append_iff.1 tokens
    obtain ⟨semi, rfl, closing⟩ := List.map_eq_singleton_iff.1 fourth
    obtain ⟨t, type, sameType⟩ := derivesType types first
    obtain ⟨n, name, sameName⟩ := derivesName names second
    obtain ⟨v, default, sameDefault⟩ := derivesDefault values third
    refine ⟨_, .mk rfl type name default closing, ?_⟩
    rw [Field.essence, sameType, sameDefault, show n = f.name from sameName]
    rfl

theorem constant_shown {c : Constant} (spelled : c.Spelled) :
    Shows IsConstant Constant.essence (c.text ++ ";") c.essence := by
  obtain ⟨ts, writesType, derivesType⟩ := type_shown spelled.type
  obtain ⟨ns, writesName, derivesName⟩ := identifier_shown spelled.name
  obtain ⟨vs, writesValue, derivesValue⟩ := literal_shown spelled.value
  refine ⟨.word "const" :: (ts ++ (ns ++ .mark .equals :: (vs ++ [.mark .semicolon]))), ?_, ?_⟩
  · intro rest us apart others
    have value := writesValue _ _ (apart_mark .semicolon rest) (.mark .semicolon others)
    have name := writesName _ _ (apart_space _) (.space (.mark .equals (.space value)))
    have type := writesType _ _ (apart_space _) (.space name)
    have word : Text.isIdentifier "const" = true := by decide
    have whole := Line.word word (apart_space _) (.space type)
    simpa [Constant.text, Mark.char] using whole
  · intro ls tokens
    obtain ⟨word, tail, rfl, opening, tokens⟩ := List.map_eq_cons_iff.1 tokens
    obtain ⟨types, tail, rfl, first, tokens⟩ := List.map_eq_append_iff.1 tokens
    obtain ⟨names, tail, rfl, second, tokens⟩ := List.map_eq_append_iff.1 tokens
    obtain ⟨eq, tail, rfl, equals, tokens⟩ := List.map_eq_cons_iff.1 tokens
    obtain ⟨values, last, rfl, third, fourth⟩ := List.map_eq_append_iff.1 tokens
    obtain ⟨semi, rfl, closing⟩ := List.map_eq_singleton_iff.1 fourth
    obtain ⟨t, type, sameType⟩ := derivesType types first
    obtain ⟨n, name, sameName⟩ := derivesName names second
    obtain ⟨v, value, sameValue⟩ := derivesValue values third
    refine ⟨_, .mk rfl opening type name equals value closing, ?_⟩
    rw [Constant.essence, sameType, sameValue, show n = c.name from sameName]
    rfl

/-- A direction as an argument shows it. -/
def directionText (d : Option Direction) : String := (d.map fun d => d.keyword ++ " ").getD ""

theorem direction_shown (d : Option Direction) : Leads IsDirection id (directionText d) d := by
  cases d with
  | none =>
    refine ⟨[], fun rest us others => others, ?_⟩
    intro ls tokens
    rw [List.map_eq_nil_iff.1 tokens]
    exact ⟨none, .absent, rfl⟩
  | some d =>
    refine ⟨[.word d.keyword], ?_, ?_⟩
    · intro rest us others
      have word : Text.isIdentifier d.keyword = true := by cases d <;> decide
      have whole := Line.word word (apart_space rest) (.space others)
      simpa [directionText] using whole
    · intro ls tokens
      obtain ⟨l, rfl, word⟩ := List.map_eq_singleton_iff.1 tokens
      exact ⟨some d, .present word, rfl⟩

theorem annotations_absent : IsAnnotations [] .empty := .mk .nil

theorem argument_shown {a : Argument} (spelled : a.Spelled) :
    Shows IsArgument Argument.essence a.text a.essence := by
  obtain ⟨ds, writesDirection, derivesDirection⟩ := direction_shown a.written
  obtain ⟨ts, writesType, derivesType⟩ := tree_shown spelled.type
  obtain ⟨ns, writesName, derivesName⟩ := identifier_shown spelled.name
  refine ⟨ds ++ (ts ++ ns), ?_, ?_⟩
  · intro rest us apart others
    have name := writesName rest us apart others
    have type := writesType _ _ (apart_space _) (.space name)
    have whole := writesDirection _ _ type
    simpa [Argument.text, Argument.variableText, directionText] using whole
  · intro ls tokens
    obtain ⟨directions, tail, rfl, first, tokens⟩ := List.map_eq_append_iff.1 tokens
    obtain ⟨types, names, rfl, second, third⟩ := List.map_eq_append_iff.1 tokens
    obtain ⟨d, direction, sameDirection⟩ := derivesDirection directions first
    obtain ⟨t, type, sameType⟩ := derivesType types second
    obtain ⟨n, name, sameName⟩ := derivesName names third
    refine ⟨_, .mk rfl annotations_absent direction type name, ?_⟩
    rw [Argument.essence, withAnnotations, TypeExpr.tree_annotate, sameType,
      show d = a.written from sameDirection, show n = a.name from sameName]
    rfl

theorem argumentList_shown {as : List Argument} (each : ∀ a ∈ as, a.Spelled) :
    Shows IsArgumentList (List.map Argument.essence)
      ("(" ++ String.intercalate ", " (as.map Argument.text) ++ ")")
      (as.map Argument.essence) := by
  cases as with
  | nil =>
    refine ⟨[.mark .openParen, .mark .closeParen], ?_, ?_⟩
    · exact fun rest us _ others => .mark .openParen (.mark .closeParen others)
    · intro ls tokens
      obtain ⟨left, tail, rfl, opening, tokens⟩ := List.map_eq_cons_iff.1 tokens
      obtain ⟨right, rfl, closing⟩ := List.map_eq_singleton_iff.1 tokens
      exact ⟨[], .empty opening closing, rfl⟩
  | cons a as =>
    obtain ⟨ts, writes, derives⟩ := separated_shown separates_comma_space (List.cons_ne_nil a as)
      fun x member => argument_shown (each x member)
    refine ⟨.mark .openParen :: (ts ++ [.mark .closeParen]), ?_, ?_⟩
    · intro rest us apart others
      have closing := writes _ _ (apart_mark .closeParen rest) (.mark .closeParen others)
      have whole := Line.mark .openParen closing
      simpa [Mark.char] using whole
    · intro ls tokens
      obtain ⟨left, tail, rfl, opening, tokens⟩ := List.map_eq_cons_iff.1 tokens
      obtain ⟨inside, last, rfl, first, ended⟩ := List.map_eq_append_iff.1 tokens
      obtain ⟨right, rfl, closing⟩ := List.map_eq_singleton_iff.1 ended
      obtain ⟨found, derived, same⟩ := derives inside first
      exact ⟨found, .some opening derived closing, same⟩

/-- A number as a method shows it. -/
def idText (id : MethodId) : String := (id.written?.map fun n => " = " ++ toString n).getD ""

theorem id_shown {i : MethodId} (spelled : i.Spelled) :
    Shows IsMethodId id (idText i) i := by
  cases spelled with
  | unset =>
    refine ⟨[], fun rest us _ others => others, ?_⟩
    intro ls tokens
    rw [List.map_eq_nil_iff.1 tokens]
    exact ⟨.unset, .absent, rfl⟩
  | @written n low high =>
    refine ⟨[.mark .equals, .number (toString n)], ?_, ?_⟩
    · intro rest us apart others
      have whole := Line.space (.mark .equals (.space (writes_number n rest us apart others)))
      simpa [idText, MethodId.written?, Mark.char] using whole
    · intro ls tokens
      obtain ⟨eq, tail, rfl, opening, tokens⟩ := List.map_eq_cons_iff.1 tokens
      obtain ⟨l, rfl, token⟩ := List.map_eq_singleton_iff.1 tokens
      exact ⟨_, .present opening token (Text.decimal?_toString low high), rfl⟩

theorem apart_id (i : MethodId) {rest : List Char} (apart : Apart rest) :
    Apart ((idText i).toList ++ rest) := by
  unfold idText
  cases i.written? with
  | none => exact apart
  | some n =>
    rw [Option.map_some, Option.getD_some, String.toList_append, List.append_assoc]
    exact apart_space _

theorem oneway_shown (b : Bool) : Leads IsOneway id (if b then "oneway " else "") b := by
  cases b with
  | false =>
    refine ⟨[], fun rest us others => others, ?_⟩
    intro ls tokens
    rw [List.map_eq_nil_iff.1 tokens]
    exact ⟨false, .absent, rfl⟩
  | true =>
    refine ⟨[.word "oneway"], ?_, ?_⟩
    · intro rest us others
      have word : Text.isIdentifier "oneway" = true := by decide
      exact Line.word word (apart_space rest) (.space others)
    · intro ls tokens
      obtain ⟨l, rfl, word⟩ := List.map_eq_singleton_iff.1 tokens
      exact ⟨true, .present word, rfl⟩

theorem method_shown {m : Method} (spelled : m.Spelled) :
    Shows IsMethod Method.essence (m.text ++ ";") m.essence := by
  obtain ⟨os, writesOneway, derivesOneway⟩ := oneway_shown m.oneway
  obtain ⟨ts, writesType, derivesType⟩ := type_shown spelled.returnType
  obtain ⟨ns, writesName, derivesName⟩ := identifier_shown spelled.name
  obtain ⟨gs, writesList, derivesList⟩ := argumentList_shown spelled.arguments
  obtain ⟨is, writesId, derivesId⟩ := id_shown spelled.id
  refine ⟨os ++ (ts ++ (ns ++ (gs ++ (is ++ [.mark .semicolon])))), ?_, ?_⟩
  · intro rest us apart others
    have semicolon : Apart (';' :: rest) := apart_mark .semicolon rest
    have number := writesId _ _ semicolon (.mark .semicolon others)
    have list := writesList _ _ (apart_id m.id semicolon) number
    have opening : Apart ('(' :: (String.intercalate ", " (m.arguments.map Argument.text) ++
        ")").toList ++ ((idText m.id).toList ++ ';' :: rest)) := apart_mark .openParen _
    have name := writesName _ _ opening (by simpa using list)
    have whole := writesOneway _ _ (writesType _ _ (apart_space _) (.space name))
    simpa [Method.text, idText] using whole
  · intro ls tokens
    obtain ⟨oneways, tail, rfl, first, tokens⟩ := List.map_eq_append_iff.1 tokens
    obtain ⟨types, tail, rfl, second, tokens⟩ := List.map_eq_append_iff.1 tokens
    obtain ⟨names, tail, rfl, third, tokens⟩ := List.map_eq_append_iff.1 tokens
    obtain ⟨lists, tail, rfl, fourth, tokens⟩ := List.map_eq_append_iff.1 tokens
    obtain ⟨ids, last, rfl, fifth, sixth⟩ := List.map_eq_append_iff.1 tokens
    obtain ⟨semi, rfl, closing⟩ := List.map_eq_singleton_iff.1 sixth
    obtain ⟨b, oneway, sameOneway⟩ := derivesOneway oneways first
    obtain ⟨t, type, sameType⟩ := derivesType types second
    obtain ⟨n, name, sameName⟩ := derivesName names third
    obtain ⟨args, list, sameList⟩ := derivesList lists fourth
    obtain ⟨i, number, sameNumber⟩ := derivesId ids fifth
    refine ⟨_, .mk rfl annotations_absent oneway type name list number closing, ?_⟩
    have returned : (withAnnotations t .empty).essence = t.essence := by
      unfold withAnnotations
      rw [AnnotationSet.union_comm, AnnotationSet.empty_union, TypeExpr.essence_annotate]
      rfl
    rw [Method.essence, returned, sameType, sameList, show b = m.oneway from sameOneway,
      show n = m.name from sameName, show i = m.id from sameNumber]
    rfl

/-- The line of a member. -/
def memberLine : Member → String
  | .method m => m.text ++ ";"
  | .constant c => c.text ++ ";"

theorem method_member_shown {m : Method} (spelled : m.Spelled) :
    Shows IsMember Member.essence (memberLine (.method m)) (Member.essence (.method m)) := by
  obtain ⟨ts, writes, derives⟩ := method_shown spelled
  refine ⟨ts, writes, ?_⟩
  intro ls tokens
  obtain ⟨found, derived, same⟩ := derives ls tokens
  exact ⟨.method found, .method derived, congrArg Member.method same⟩

theorem constant_member_shown {c : Constant} (spelled : c.Spelled) :
    Shows IsMember Member.essence (memberLine (.constant c)) (Member.essence (.constant c)) := by
  obtain ⟨ts, writes, derives⟩ := constant_shown spelled
  refine ⟨ts, writes, ?_⟩
  intro ls tokens
  obtain ⟨found, derived, same⟩ := derives ls tokens
  exact ⟨.constant found, .constant derived, congrArg Member.constant same⟩

/-! ## Declarations -/

theorem Writes.line {text : String} {ts : List Token} (writes : Writes text ts) :
    Line text.toList ts := by
  have alone := writes [] [] apart_nil .nil
  simpa using alone

section
variable {α β γ : Type} {D : List Lexeme → α → Prop} {view : α → β} {text : γ → String} {b : γ → β}

/-- Items that are shown one in a line. -/
theorem lines_shown {as : List γ} (some : ∀ a ∈ as, text a ≠ "")
    (each : ∀ a ∈ as, Shows D view (text a) (b a)) {l : Layout} {ts : List Token}
    (scans : l.Scans ts) :
    ∃ us, ((as.map text).foldl Layout.writeLine l).Scans (ts ++ us) ∧
      Derives (Many D) (List.map view) us (as.map b) := by
  induction as generalizing l ts with
  | nil =>
    refine ⟨[], by simpa using scans, ?_⟩
    intro ls tokens
    rw [List.map_eq_nil_iff.1 tokens]
    exact ⟨[], .nil, rfl⟩
  | cons a as ih =>
    obtain ⟨us, writes, derives⟩ := each a List.mem_cons_self
    have first := scans.writeLine (some a List.mem_cons_self) writes.line
    obtain ⟨vs, others, derivesOthers⟩ := ih (fun x member => some x (List.mem_cons_of_mem a member))
      (fun x member => each x (List.mem_cons_of_mem a member)) first
    refine ⟨us ++ vs, by simpa using others, ?_⟩
    intro ls tokens
    obtain ⟨own, rest, rfl, head, tail⟩ := List.map_eq_append_iff.1 tokens
    obtain ⟨c, derived, same⟩ := derives own head
    obtain ⟨cs, derivedOthers, sameOthers⟩ := derivesOthers rest tail
    exact ⟨c :: cs, .cons derived derivedOthers, by simp [same, sameOthers]⟩

end

theorem before_append (set : AnnotationSet) (body more : String) :
    set.before body ++ more = set.before (body ++ more) := by
  unfold AnnotationSet.before
  split <;> simp [String.append_assoc]

theorem before_ne_empty (set : AnnotationSet) {body : String} (some : body ≠ "") :
    set.before body ≠ "" := by
  unfold AnnotationSet.before
  split <;> simp [some]

/-- What a declaration with a body is written as. -/
theorem writeApi_block {d : Declaration} {opening : String} {lines : List String}
    (parts : d.apiParts = (opening, some lines)) (l : Layout) :
    d.writeApi l =
      (lines.foldl Layout.writeLine
        (l.writeLine (d.header.annotations.before opening ++ " \x7b")).indent).dedent.writeLine
          "\x7d" := by
  unfold Declaration.writeApi
  rw [parts]
  rfl

/-- A block of lines behind an opening line with annotations. -/
theorem block_scans {opening : String} {os : List Token} (writes : Writes opening os)
    (set : AnnotationSet) {l : Layout} {ts : List Token} (scans : l.Scans ts) :
    ((l.writeLine (set.before opening ++ " \x7b")).indent).Scans
      (ts ++ (annotationTokens set.toList ++ (os ++ [.mark .openBrace]))) := by
  have brace : Writes (opening ++ " \x7b") (os ++ [.mark .openBrace]) := by
    intro rest us apart others
    have whole := writes _ _ (apart_space _) (.space (.mark .openBrace others))
    simpa [Mark.char] using whole
  rw [before_append]
  exact (scans.writeLine (before_ne_empty set (by simp)) (writes_before set brace).line).indent

theorem closeBrace_line : Line "\x7d".toList [.mark .closeBrace] := .mark .closeBrace .nil

theorem writes_parcelable {n : QualifiedName} (spelled : n.Spelled) :
    ∃ ns, Writes ("parcelable " ++ n.dotName) (.word "parcelable" :: ns) ∧
      Derives IsName (List.map id) ns n.terms := by
  obtain ⟨ns, writes, derives⟩ := name_shown spelled.some spelled.words
  refine ⟨ns, ?_, derives⟩
  intro rest us apart others
  have word : Text.isIdentifier "parcelable" = true := by decide
  have name := writes rest us apart others
  have whole := Line.word word (apart_space _) (.space name)
  simpa [QualifiedName.dotName] using whole

section
variable {h : Header} {l : Layout} {ts : List Token}

theorem parcelable_shown {n : QualifiedName} (spelled : n.Spelled) (own : n.dotName = h.name)
    (unattached : h.attachment = none) (cppHeader : String) (scans : l.Scans ts) :
    ∃ us, (Declaration.writeApi ⟨h, .parcelable n cppHeader⟩ l).Scans (ts ++ us) ∧
      Derives (IsDeclaration []) Declaration.essence us
        (Declaration.essence ⟨h, .parcelable n cppHeader⟩) := by
  obtain ⟨ns, writes, derives⟩ := writes_parcelable spelled
  rw [own] at writes
  refine ⟨annotationTokens h.annotations.toList ++ (.word "parcelable" :: (ns ++
    [.mark .semicolon])), ?_, ?_⟩
  · have line : Writes ("parcelable " ++ h.name ++ ";")
        (.word "parcelable" :: (ns ++ [.mark .semicolon])) := by
      intro rest us apart others
      have whole := writes _ _ (apart_mark .semicolon rest) (.mark .semicolon others)
      simpa [Mark.char] using whole
    have whole := scans.writeLine (before_ne_empty h.annotations (by simp))
      (writes_before h.annotations line).line
    rw [← before_append] at whole
    exact whole
  · intro ls tokens
    obtain ⟨as, tail, rfl, first, tokens⟩ := List.map_eq_append_iff.1 tokens
    obtain ⟨word, tail, rfl, opening, tokens⟩ := List.map_eq_cons_iff.1 tokens
    obtain ⟨names, last, rfl, second, third⟩ := List.map_eq_append_iff.1 tokens
    obtain ⟨semi, rfl, closing⟩ := List.map_eq_singleton_iff.1 third
    obtain ⟨terms, name, sameTerms⟩ := derives names second
    obtain rfl : terms = n.terms := by simpa using sameTerms
    refine ⟨_, .mk rfl (annotations_derived _ as first) (.parcelable opening name closing), ?_⟩
    obtain ⟨location, name, comments, package, set, attachment⟩ := h
    cases own
    cases unattached
    rfl

theorem structured_shown {n : QualifiedName} {fields : List Field} (spelled : n.Spelled)
    (own : n.dotName = h.name) (unattached : h.attachment = none)
    (each : ∀ f ∈ fields, f.Spelled) (scans : l.Scans ts) :
    ∃ us, (Declaration.writeApi ⟨h, .structured n fields⟩ l).Scans (ts ++ us) ∧
      Derives (IsDeclaration []) Declaration.essence us
        (Declaration.essence ⟨h, .structured n fields⟩) := by
  obtain ⟨ns, writes, derives⟩ := writes_parcelable spelled
  rw [own] at writes
  have inside := block_scans writes h.annotations scans
  have some : ∀ f ∈ fields, Declaration.fieldLine f ≠ "" := by simp [Declaration.fieldLine]
  obtain ⟨fs, lines, derivesFields⟩ :=
    lines_shown some (fun f member => field_shown (each f member)) inside
  have closed := lines.dedent.writeLine (by decide) closeBrace_line
  refine ⟨annotationTokens h.annotations.toList ++ (.word "parcelable" :: (ns ++
    .mark .openBrace :: (fs ++ [.mark .closeBrace]))), ?_, ?_⟩
  · rw [writeApi_block rfl]
    simpa [Declaration.name] using closed
  · intro ls tokens
    obtain ⟨as, tail, rfl, first, tokens⟩ := List.map_eq_append_iff.1 tokens
    obtain ⟨word, tail, rfl, opening, tokens⟩ := List.map_eq_cons_iff.1 tokens
    obtain ⟨names, tail, rfl, second, tokens⟩ := List.map_eq_append_iff.1 tokens
    obtain ⟨left, tail, rfl, brace, tokens⟩ := List.map_eq_cons_iff.1 tokens
    obtain ⟨items, last, rfl, third, fourth⟩ := List.map_eq_append_iff.1 tokens
    obtain ⟨right, rfl, closing⟩ := List.map_eq_singleton_iff.1 fourth
    obtain ⟨terms, name, sameTerms⟩ := derives names second
    obtain rfl : terms = n.terms := by simpa using sameTerms
    obtain ⟨found, all, sameFields⟩ := derivesFields items third
    refine ⟨_, .mk rfl (annotations_derived _ as first)
      (.structured opening name brace all closing), ?_⟩
    obtain ⟨location, name, comments, package, set, attachment⟩ := h
    cases own
    cases unattached
    change Declaration.mk _ (.structured _ (found.map Field.essence)) = _
    rw [sameFields]
    rfl

theorem methods_essence (ms : List Member) :
    (ms.filterMap Member.method?).map Method.essence =
      (ms.map Member.essence).filterMap Member.method? :=
  map_filterMap_comm (fun m => by cases m <;> rfl) ms

theorem constants_essence (ms : List Member) :
    (ms.filterMap Member.constant?).map Constant.essence =
      (ms.map Member.essence).filterMap Member.constant? :=
  map_filterMap_comm (fun m => by cases m <;> rfl) ms

/-- Methods of a oneway interface are oneway, whether it is written with each of them or not. -/
theorem ofMembers_essence {oneway : Bool} {methods : List Method} {constants : List Constant}
    (spread : oneway = true → ∀ m ∈ methods, m.oneway = true) {found : List Member}
    (same : found.map Member.essence =
      (methods.map Member.method ++ constants.map Member.constant).map Member.essence) :
    ((found.filterMap Member.method?).map fun m => { m with oneway := m.oneway || oneway }).map
        Method.essence = methods.map Method.essence ∧
      (found.filterMap Member.constant?).map Constant.essence =
        constants.map Constant.essence := by
  have sameMethods : (found.filterMap Member.method?).map Method.essence =
      methods.map Method.essence := by
    rw [methods_essence, same]
    simp [List.filterMap_append, List.filterMap_map, Function.comp_def, Member.essence,
      Member.method?]
  have sameConstants : (found.filterMap Member.constant?).map Constant.essence =
      constants.map Constant.essence := by
    rw [constants_essence, same]
    simp [List.filterMap_append, List.filterMap_map, Function.comp_def, Member.essence,
      Member.constant?]
  refine ⟨?_, sameConstants⟩
  have later : ∀ ms : List Method,
      (ms.map fun m => { m with oneway := m.oneway || oneway }).map Method.essence =
        (ms.map Method.essence).map fun m => { m with oneway := m.oneway || oneway } := by
    intro ms
    simp [Method.essence]
  rw [later, sameMethods, ← later]
  congr 1
  refine (List.map_congr_left fun m member => ?_).trans (List.map_id methods)
  cases oneway with
  | false => simp
  | true => simp [← spread rfl m member]

theorem interface_shown {oneway : Bool} {methods : List Method} {constants : List Constant}
    (own : Text.IsFreeWord h.name) (unattached : h.attachment = none)
    (eachMethod : ∀ m ∈ methods, m.Spelled) (eachConstant : ∀ c ∈ constants, c.Spelled)
    (spread : oneway = true → ∀ m ∈ methods, m.oneway = true) (scans : l.Scans ts) :
    ∃ us, (Declaration.writeApi ⟨h, .interface oneway methods constants⟩ l).Scans (ts ++ us) ∧
      Derives (IsDeclaration []) Declaration.essence us
        (Declaration.essence ⟨h, .interface oneway methods constants⟩) := by
  obtain ⟨os, writesOneway, derivesOneway⟩ := oneway_shown oneway
  obtain ⟨ns, writesName, derivesName⟩ := identifier_shown own
  have writes : Writes ((if oneway then "oneway " else "") ++ "interface " ++ h.name)
      (os ++ .word "interface" :: ns) := by
    intro rest us apart others
    have word : Text.isIdentifier "interface" = true := by decide
    have name := writesName rest us apart others
    have whole := writesOneway _ _ (Line.word word (apart_space _) (.space name))
    simpa using whole
  have inside := block_scans writes h.annotations scans
  let members := methods.map Member.method ++ constants.map Member.constant
  have each : ∀ m ∈ members, Shows IsMember Member.essence (memberLine m) m.essence := by
    intro m member
    rcases List.mem_append.1 member with member | member
    · obtain ⟨m, inner, rfl⟩ := List.mem_map.1 member
      exact method_member_shown (eachMethod m inner)
    · obtain ⟨c, inner, rfl⟩ := List.mem_map.1 member
      exact constant_member_shown (eachConstant c inner)
  have some : ∀ m ∈ members, memberLine m ≠ "" := by
    intro m _
    cases m <;> simp [memberLine]
  obtain ⟨is, lines, derivesMembers⟩ := lines_shown some each inside
  have closed := lines.dedent.writeLine (by decide) closeBrace_line
  have parts : Declaration.apiParts ⟨h, .interface oneway methods constants⟩ =
      ((if oneway then "oneway " else "") ++ "interface " ++ h.name,
        Option.some (members.map memberLine)) := by
    simp [Declaration.apiParts, Declaration.name, members, memberLine, Function.comp_def]
  refine ⟨annotationTokens h.annotations.toList ++ (os ++ .word "interface" :: (ns ++
    .mark .openBrace :: (is ++ [.mark .closeBrace]))), ?_, ?_⟩
  · rw [writeApi_block parts]
    simpa using closed
  · intro ls tokens
    obtain ⟨as, tail, rfl, first, tokens⟩ := List.map_eq_append_iff.1 tokens
    obtain ⟨oneways, tail, rfl, second, tokens⟩ := List.map_eq_append_iff.1 tokens
    obtain ⟨word, tail, rfl, opening, tokens⟩ := List.map_eq_cons_iff.1 tokens
    obtain ⟨names, tail, rfl, third, tokens⟩ := List.map_eq_append_iff.1 tokens
    obtain ⟨left, tail, rfl, brace, tokens⟩ := List.map_eq_cons_iff.1 tokens
    obtain ⟨items, last, rfl, fourth, fifth⟩ := List.map_eq_append_iff.1 tokens
    obtain ⟨right, rfl, closing⟩ := List.map_eq_singleton_iff.1 fifth
    obtain ⟨b, oneway', sameOneway⟩ := derivesOneway oneways second
    obtain ⟨n, name, sameName⟩ := derivesName names third
    obtain ⟨found, all, sameMembers⟩ := derivesMembers items fourth
    refine ⟨_, .mk rfl (annotations_derived _ as first)
      (.interface oneway' opening name brace all closing), ?_⟩
    obtain rfl : b = oneway := sameOneway
    obtain rfl : n = h.name := sameName
    obtain ⟨location, name, comments, package, set, attachment⟩ := h
    cases unattached
    obtain ⟨sameMethods, sameConstants⟩ := ofMembers_essence spread sameMembers
    change Declaration.mk _ (.interface b (List.map _ _) (List.map _ _)) = _
    rw [sameMethods, sameConstants]
    rfl

end

theorem declaration_shown {package : List String} {d : Declaration} (spelled : d.Spelled package)
    {l : Layout} {ts : List Token} (scans : l.Scans ts) :
    ∃ us, (d.writeApi l).Scans (ts ++ us) ∧
      Derives (IsDeclaration []) Declaration.essence us d.essence := by
  obtain ⟨h, b⟩ := d
  obtain ⟨-, unattached, body⟩ := spelled
  cases body with
  | parcelable own name => exact parcelable_shown name own unattached _ scans
  | structured own name each => exact structured_shown name own unattached each scans
  | interface own eachMethod eachConstant spread =>
    exact interface_shown own unattached eachMethod eachConstant spread scans

/-! ## Files -/

/-- A file with a single declaration, written at any depth. -/
theorem writeApi_read {package : List String} {d : Declaration} (spelled : d.Spelled package)
    (depth : Nat) (path : String) :
    ∃ file e, SourceFile.ofText path (d.writeApi ⟨"", depth, true⟩).text = (file, []) ∧
      file.package = none ∧ file.imports = [] ∧ file.types = [e] ∧ e.essence = d.essence := by
  obtain ⟨ts, scans, derives⟩ := declaration_shown spelled (Layout.scans_empty depth)
  have cut := scans.scans [] [] Piece.scans_nil
  rw [List.append_nil, List.append_nil] at cut
  obtain ⟨ls, last, lexemes, tokens, closing⟩ := Lexeme.ofText_of_scans cut path
  obtain ⟨found, derived, same⟩ := derives ls tokens
  have whole : IsFile ls ⟨none, [], [found]⟩ := by
    have items := IsFile.mk .absent (.cons (.declaring derived) .nil)
    rw [List.append_nil] at items
    exact items
  obtain ⟨silent, alike⟩ := ofLexemes_complete closing whole
  obtain ⟨e, single, sameTypes⟩ : ∃ e, (SourceFile.ofLexemes (ls ++ [last])).1.types = [e] ∧
      e.mapTypes .unplaced = found.mapTypes .unplaced :=
    List.map_eq_singleton_iff.1 (congrArg SourceFile.types alike)
  refine ⟨(SourceFile.ofLexemes (ls ++ [last])).1, e, ?_, congrArg SourceFile.package alike,
    congrArg SourceFile.imports alike, single, ?_⟩
  · unfold SourceFile.ofText
    rw [lexemes]
    exact Prod.ext rfl silent
  · rw [← Declaration.essence_unplaced, sameTypes, Declaration.essence_unplaced, same]

/-- A declaration that was read without a report can be written and read again. It comes back alone,
without a report, and says the same. -/
theorem declaration_reads_back (path text : String) (file : SourceFile)
    (silent : SourceFile.ofText path text = (file, [])) (d : Declaration) (member : d ∈ file.types)
    (depth : Nat) (target : String) :
    ∃ again e, SourceFile.ofText target (d.writeApi ⟨"", depth, true⟩).text = (again, []) ∧
      again.package = none ∧ again.imports = [] ∧ again.types = [e] ∧ e.essence = d.essence :=
  writeApi_read ((ofText_spelled silent).types d member) depth target

/-- An interface with annotations, nested types, a negative number and a hexadecimal constant. -/
def mixture : String :=
  "@utf8 interface I \x7b @nullable a.B[] f(in List<B> x) = -7; const int M = 0xFFFFFFFF; \x7d"

theorem mixture_reads_back :
    ∃ file, SourceFile.ofText "I.aidl" mixture = (file, []) ∧
      file.types.map Declaration.name = ["I"] ∧
      ∀ d ∈ file.types, ∃ again e,
        SourceFile.ofText "J.aidl" (d.writeApi ⟨"", 2, true⟩).text = (again, []) ∧
          again.package = none ∧ again.imports = [] ∧ again.types = [e] ∧
          e.essence = d.essence := by
  have evaluated : (SourceFile.ofText "I.aidl" mixture).2 = [] ∧
      (SourceFile.ofText "I.aidl" mixture).1.types.map Declaration.name = ["I"] := by
    decide +kernel
  cases read : SourceFile.ofText "I.aidl" mixture with
  | mk file notes =>
    rw [read] at evaluated
    obtain ⟨rfl, names⟩ := evaluated
    exact ⟨file, rfl, names, fun d member => declaration_reads_back _ _ file read d member 2 _⟩

end IdlFrontEnd.Grammar
