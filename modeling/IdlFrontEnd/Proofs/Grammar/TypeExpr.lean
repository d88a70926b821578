import IdlFrontEnd.Proofs.Grammar.Reading

/-!
# Names, annotations, types and literals as derived

The rules below members are sound and complete with the whole value in view. A type nests as deep as
its lexemes allow: the bound on the depth is the number of lexemes left, and every level takes one
at least, so the bound is never met.
-/
namespace IdlFrontEnd.Grammar

/-! ## Soundness -/

/-- An identifier is read without a report. -/
theorem identifier_took {r next : Reading} {text : String} (h : identifier r = .ok text next) :
    ∃ ls, Took r ls next ∧ IsIdentifier ls text := by
  obtain ⟨seen, mid, hseen, h⟩ := bind_eq_ok.1 h
  cases hseen
  cases hword : r.token with
  | word word =>
    rw [hword] at h
    dsimp only at h
    split at h
    · cases h
    next free =>
      cases h
      obtain ⟨l, hl, took⟩ := Took.take (r := r) (by simp [hword])
      exact ⟨[l], took, .mk (hl.trans hword) free⟩
  | number | string | mark | eof =>
    rw [hword] at h
    cases h

theorem identifier_sound : Sound IsIdentifier identifier :=
  fun _ _ _ h _ => identifier_took h

theorem identifier_inhabited : Inhabited IsIdentifier := by
  rintro _ _ ⟨_, _⟩
  simp

theorem qualifiedNameWith_sound (comments : String) :
    Sound (fun ls n => ∃ terms, IsName ls terms ∧ n = ⟨span ls, terms, comments⟩)
      (qualifiedNameWith comments) := by
  intro r n next h silent
  obtain ⟨start, mid, hstart, h⟩ := bind_eq_ok.1 h
  cases hstart
  obtain ⟨term, mid, hterm, h⟩ := bind_eq_ok.1 h
  obtain ⟨terms, last, hterms, h⟩ := bind_eq_ok.1 h
  cases h
  obtain ⟨bs, tookOthers, derived⟩ :=
    manyWhile_sound after_inhabited (after_sound identifier_sound) mid terms next hterms silent
  obtain ⟨ls, tookFirst, first⟩ :=
    identifier_sound r term mid hterm (tookOthers.notes.symm.trans silent)
  have name : IsName (ls ++ bs) (term :: terms) := .mk first derived
  have took := tookFirst.trans tookOthers
  have some := separated_inhabited identifier_inhabited _ _ name
  exact ⟨ls ++ bs, took, term :: terms, name, by rw [← took.span some]⟩

theorem qualifiedName_sound :
    Sound (fun ls n => ∃ terms, IsName ls terms ∧ n = ⟨span ls, terms, leadComments ls⟩)
      qualifiedName := by
  intro r n next h silent
  obtain ⟨start, mid, hstart, h⟩ := bind_eq_ok.1 h
  cases hstart
  obtain ⟨ls, took, terms, name, rfl⟩ := qualifiedNameWith_sound _ r n next h silent
  have some := separated_inhabited identifier_inhabited _ _ name
  exact ⟨ls, took, terms, name, by rw [took.comments some]⟩

/-- A value that came with a report is not given in silence. -/
theorem reported_sound {α : Type} (found : α × List Diagnostic) {r next : Reading} {a : α}
    (h : reported found r = .ok a next) (silent : next.notes = []) :
    found = (a, []) ∧ next = r := by
  obtain ⟨value, notes⟩ := found
  cases h
  obtain ⟨before, rfl⟩ := List.append_eq_nil_iff.1 silent
  refine ⟨rfl, ?_⟩
  simp [Reading.report]

theorem annotation_sound (r : Reading) (found : Option Annotation) (next : Reading)
    (wanted : decide (r.token = .mark .at) = true) (h : annotation r = .ok found next)
    (silent : next.notes = []) :
    ∃ ls, Took r ls next ∧ ∃ a, found = some a ∧ IsAnnotation ls a := by
  obtain ⟨start, mid, hstart, h⟩ := bind_eq_ok.1 h
  cases hstart
  obtain ⟨_, mid, htake, h⟩ := bind_eq_ok.1 h
  cases htake
  obtain ⟨seen, mid, hseen, h⟩ := bind_eq_ok.1 h
  cases hseen
  have isSign := of_decide_eq_true wanted
  obtain ⟨sign, hsign, tookSign⟩ := Took.take (r := r) (by simp [isSign])
  cases hword : r.take.token with
  | word name =>
    rw [hword] at h
    obtain ⟨l, hl, tookWord⟩ := Took.take (r := r.take) (by simp [hword])
    obtain ⟨hfound, rfl⟩ := reported_sound (annotationNamed _ name) h silent
    cases hname : Annotation.ofName? name with
    | none => simp [annotationNamed, hname] at hfound
    | some a =>
      simp only [annotationNamed, hname, Prod.mk.injEq, and_true] at hfound
      have named := Annotation.ofName?_eq_some_iff.1 hname
      exact ⟨[sign, l], tookSign.trans tookWord, a, hfound.symm,
        .mk (hsign.trans isSign) (by rw [hl, hword, named])⟩
  | number | string | mark | eof =>
    rw [hword] at h
    cases h

theorem annotations_sound : Sound IsAnnotations annotations := by
  intro r set next h silent
  obtain ⟨found, mid, hfound, h⟩ := bind_eq_ok.1 h
  cases h
  have inhabited : Inhabited fun ls found => ∃ a, found = some a ∧ IsAnnotation ls a := by
    rintro _ _ ⟨a, -, ⟨_, _⟩⟩
    simp
  obtain ⟨ls, took, derivedAll⟩ :=
    manyWhile_sound inhabited annotation_sound r found next hfound silent
  obtain ⟨as, rfl, derived⟩ := many_some_iff.1 derivedAll
  have all : List.filterMap id (as.map some) = as := by simp
  exact ⟨ls, took, by rw [all]; exact .mk derived⟩

theorem typeParams_sound {type : Rule TypeExpr} (sound : Sound IsType type) :
    Sound (IsParams IsType) (typeParams type) := by
  intro r ts next h silent
  obtain ⟨b, mid, haccept, hrest⟩ := bind_eq_ok.1 h
  rcases accept_sound (by decide) haccept with ⟨rfl, less, hless, tookLess⟩ | ⟨rfl, rfl⟩
  · obtain ⟨params, last, hparams, hrest⟩ := bind_eq_ok.1 hrest
    obtain ⟨_, after, hclose, hrest⟩ := bind_eq_ok.1 hrest
    cases hrest
    obtain ⟨greater, hgreater, tookGreater⟩ := expect_sound (by decide) hclose
    obtain ⟨ls, took, derived⟩ :=
      separated_sound sound mid params last hparams (tookGreater.notes.symm.trans silent)
    exact ⟨_, tookLess.cons (took.trans tookGreater), .present hless derived hgreater⟩
  · cases hrest
    exact ⟨[], .refl _, .absent⟩

theorem arrayMark_took {r next : Reading} {b : Bool} (h : arrayMark r = .ok b next) :
    ∃ ls, Took r ls next ∧ IsArrayMark ls b := by
  obtain ⟨b, mid, haccept, hrest⟩ := bind_eq_ok.1 h
  rcases accept_sound (by decide) haccept with ⟨rfl, left, hleft, tookLeft⟩ | ⟨rfl, rfl⟩
  · obtain ⟨_, last, hclose, hrest⟩ := bind_eq_ok.1 hrest
    cases hrest
    obtain ⟨right, hright, tookRight⟩ := expect_sound (by decide) hclose
    exact ⟨[left, right], tookLeft.trans tookRight, .present hleft hright⟩
  · cases hrest
    exact ⟨[], .refl _, .absent⟩

theorem arrayMark_sound : Sound IsArrayMark arrayMark :=
  fun _ _ _ h _ => arrayMark_took h

theorem type_inhabited : Inhabited IsType := by
  rintro _ _ ⟨rfl, _, name, _, _⟩
  simp [separated_inhabited identifier_inhabited _ _ name]

theorem typeWithin_sound (depth : Nat) : Sound IsType (typeWithin depth) := by
  induction depth with
  | zero =>
    intro r t next h _
    cases h
  | succ depth ih =>
    intro r t next h silent
    obtain ⟨start, mid, hstart, h⟩ := bind_eq_ok.1 h
    cases hstart
    obtain ⟨set, afterSet, hset, h⟩ := bind_eq_ok.1 h
    obtain ⟨name, afterName, hname, h⟩ := bind_eq_ok.1 h
    obtain ⟨params, afterParams, hparams, h⟩ := bind_eq_ok.1 h
    obtain ⟨b, afterMark, hmark, h⟩ := bind_eq_ok.1 h
    cases h
    obtain ⟨bs, tookMark, mark⟩ := arrayMark_sound _ _ _ hmark silent
    obtain ⟨ps, tookParams, params⟩ :=
      typeParams_sound ih _ _ _ hparams (tookMark.notes.symm.trans silent)
    have tookRest := tookParams.trans tookMark
    obtain ⟨ns, tookName, terms, isName, rfl⟩ :=
      qualifiedName_sound _ _ _ hname (tookRest.notes.symm.trans silent)
    have tookRest := tookName.trans tookRest
    obtain ⟨as, tookSet, set⟩ :=
      annotations_sound _ _ _ hset (tookRest.notes.symm.trans silent)
    have took := tookSet.trans tookRest
    have type := IsType.mk rfl set isName params mark
    have some := type_inhabited _ _ type
    rw [← took.span some, ← took.comments some] at type
    exact ⟨_, took, type⟩

theorem typeExpr_sound : Sound IsType typeExpr :=
  fun r t next h silent => typeWithin_sound r.rest.length r t next h silent

theorem literal_sound : Sound IsLiteral literal := by
  intro r v next h silent
  obtain ⟨start, mid, hstart, h⟩ := bind_eq_ok.1 h
  cases hstart
  have token : r.current.token = r.token := rfl
  cases hword : r.token with
  | number text =>
    rw [token, hword] at h
    obtain ⟨l, hl, took⟩ := Took.take (r := r) (by simp [hword])
    obtain ⟨value, rfl⟩ := reported_sound (Literal.ofNumber _ text) h silent
    rw [took.current] at value
    exact ⟨[l], took, .number (hl.trans hword) value⟩
  | string quoted =>
    rw [token, hword] at h
    obtain ⟨l, hl, took⟩ := Took.take (r := r) (by simp [hword])
    obtain ⟨value, rfl⟩ := reported_sound (Literal.ofString _ quoted) h silent
    rw [took.current] at value
    exact ⟨[l], took, .string (hl.trans hword) value⟩
  | word | mark | eof =>
    rw [token, hword] at h
    cases h

/-! ## Completeness -/

theorem identifier_complete : Complete id IsIdentifier (fun _ => True) identifier := by
  rintro _ text rest previous notes ⟨word, free⟩ -
  rename_i l
  have stands : Reading.token ⟨l :: rest, previous, notes⟩ = .word text := word
  refine ⟨text, ?_, rfl⟩
  unfold identifier
  change (token >>= _) ⟨l :: rest, previous, notes⟩ = _
  rw [token_bind, stands]
  dsimp only
  rw [if_neg free]
  rfl

theorem name_starts {ns : List Lexeme} {terms : List String} (name : IsName ns terms)
    (rest : List Lexeme) : ∃ text, text ∉ keywords ∧ nextToken (ns ++ rest) = .word text := by
  obtain ⟨⟨word, free⟩, _⟩ := name
  exact ⟨_, free, by simp [nextToken, word]⟩

theorem qualifiedNameWith_complete (comments : String) :
    Complete id (fun ls n => ∃ terms, IsName ls terms ∧ n = ⟨span ls, terms, comments⟩)
      (· ≠ .mark .dot) (qualifiedNameWith comments) := by
  rintro ls _ rest previous notes ⟨terms, name, rfl⟩ fit
  refine ⟨_, ?_, rfl⟩
  have place := place_of_front rest previous notes
    (separated_inhabited identifier_inhabited _ _ name)
  obtain ⟨first, others⟩ := name
  rename_i as bs term terms
  have loop : Complete (List.map id) (Many (After .dot IsIdentifier))
      (fun t => True ∧ decide (t = .mark .dot) = false)
      (manyWhile (· = .mark .dot) do take; identifier) := by
    refine manyWhile_complete after_inhabited (after_complete identifier_complete) ?_
    rintro _ a rest ⟨separator, _⟩
    simp [nextToken, separator]
  rw [List.map_id_fun] at loop
  have hfirst := identifier_complete.exact (bs ++ rest) previous notes first trivial
  have hothers := loop.exact _ (lastPlace previous as) notes others ⟨trivial, decide_eq_false fit⟩
  unfold qualifiedNameWith
  rw [current_bind]
  rw [List.append_assoc] at place ⊢
  rw [bind_of_ok hfirst, bind_of_ok hothers, spanFrom_bind, ← lastPlace_append, place]
  rfl

theorem qualifiedName_complete :
    Complete id (fun ls n => ∃ terms, IsName ls terms ∧ n = ⟨span ls, terms, leadComments ls⟩)
      (· ≠ .mark .dot) qualifiedName := by
  rintro ls _ rest previous notes ⟨terms, name, rfl⟩ fit
  refine ⟨_, ?_, rfl⟩
  unfold qualifiedName
  rw [current_bind, comments_of_front _ _ _ (separated_inhabited identifier_inhabited _ _ name)]
  exact (qualifiedNameWith_complete _).exact _ previous notes ⟨terms, name, rfl⟩ fit

theorem reported_silent {α : Type} (a : α) (r : Reading) : reported (a, []) r = .ok a r := by
  change EStateM.Result.ok a (r.report []) = _
  simp [Reading.report]

theorem annotation_complete :
    Complete id (fun ls found => ∃ a, found = some a ∧ IsAnnotation ls a) (fun _ => True)
      annotation := by
  rintro _ _ rest previous notes ⟨a, rfl, ⟨opening, word⟩⟩ -
  rename_i sign l
  have stands : Reading.token ⟨l :: rest, sign.location, notes⟩ = .word a.name := word
  have known : annotationNamed (span [sign, l]) a.name = (some a, []) := by
    simp [annotationNamed, Annotation.ofName?_eq_some_iff.2 rfl]
  refine ⟨some a, ?_, rfl⟩
  unfold annotation
  change (current >>= _) ⟨sign :: l :: rest, previous, notes⟩ = _
  rw [current_bind, take_bind]
  change (token >>= _) ⟨l :: rest, sign.location, notes⟩ = _
  rw [token_bind, stands]
  dsimp only
  rw [take_bind]
  change reported (annotationNamed (span [sign, l]) a.name) ⟨rest, l.location, notes⟩ = _
  rw [known, reported_silent]
  rfl

theorem annotations_complete : Complete id IsAnnotations (· ≠ .mark .at) annotations := by
  rintro ls _ rest previous notes ⟨all⟩ fit
  rename_i found
  refine ⟨_, ?_, rfl⟩
  have inhabited : Inhabited fun ls found => ∃ a, found = some a ∧ IsAnnotation ls a := by
    rintro _ _ ⟨a, -, ⟨_, _⟩⟩
    simp
  have loop : Complete (List.map id)
      (Many fun ls found => ∃ a, found = some a ∧ IsAnnotation ls a)
      (fun t => True ∧ decide (t = .mark .at) = false)
      (manyWhile (· = .mark .at) annotation) := by
    refine manyWhile_complete inhabited annotation_complete ?_
    rintro _ _ rest ⟨a, -, ⟨opening, _⟩⟩
    simp [nextToken, opening]
  rw [List.map_id_fun] at loop
  have h := loop.exact _ previous notes (many_some_iff.2 ⟨found, rfl, all⟩)
    ⟨trivial, decide_eq_false fit⟩
  unfold annotations
  rw [bind_of_ok h]
  simp
  rfl

/-- What may stand behind a type without being read as a part of it. -/
def EndsType (t : Token) : Prop := t ≠ .mark .dot ∧ t ≠ .mark .less ∧ t ≠ .mark .openBracket

theorem typeParams_complete {D : List Lexeme → TypeExpr → Prop} {type : Rule TypeExpr}
    (complete : Complete id D EndsType type) :
    Complete id (IsParams D) (· ≠ .mark .less) (typeParams type) := by
  intro _ _ rest previous notes derived fit
  refine ⟨_, ?_, rfl⟩
  unfold typeParams
  cases derived with
  | absent =>
    change (accept (.mark .less) >>= _) ⟨rest, previous, notes⟩ = _
    rw [bind_of_ok (accept_absent fit)]
    rfl
  | @present less greater ls ts opening params closing =>
    have list := separated_complete complete (by simp [EndsType])
    rw [List.map_id_fun] at list
    have hlist := list.exact (greater :: rest) less.location notes params
      (by simp [nextToken, closing, EndsType])
    change (accept (.mark .less) >>= _) ⟨less :: ((ls ++ [greater]) ++ rest), previous, notes⟩ = _
    rw [bind_of_ok (accept_present opening), if_pos rfl, List.append_assoc, List.singleton_append,
      bind_of_ok hlist, bind_of_ok (expect_present closing)]
    simp [lastPlace, lastPlace_append]
    rfl

theorem arrayMark_complete : Complete id IsArrayMark (· ≠ .mark .openBracket) arrayMark := by
  intro _ _ rest previous notes derived fit
  refine ⟨_, ?_, rfl⟩
  unfold arrayMark
  cases derived with
  | absent =>
    change (accept (.mark .openBracket) >>= _) ⟨rest, previous, notes⟩ = _
    rw [bind_of_ok (accept_absent fit)]
    rfl
  | @present left right opening closing =>
    change (accept (.mark .openBracket) >>= _) ⟨left :: right :: rest, previous, notes⟩ = _
    rw [bind_of_ok (accept_present opening), if_pos rfl, bind_of_ok (expect_present closing)]
    rfl

/-- Parameters are shorter than their list, which bounds how deep they nest. -/
theorem params_within {D : List Lexeme → TypeExpr → Prop} {ps : List Lexeme}
    {ts : Option (List TypeExpr)} (params : IsParams D ps ts) {depth : Nat}
    (short : ps.length ≤ depth) :
    IsParams (fun ls t => D ls t ∧ ls.length ≤ depth) ps ts := by
  have within : ∀ {ls : List Lexeme} {as : List TypeExpr}, Many (After .comma D) ls as →
      ls.length ≤ depth → Many (After .comma fun ls t => D ls t ∧ ls.length ≤ depth) ls as := by
    intro ls as derived
    induction derived with
    | nil => exact fun _ => .nil
    | cons first _ ih =>
      intro short
      obtain ⟨separator, type⟩ := first
      simp only [List.length_append, List.length_cons] at short
      exact .cons (.mk separator ⟨type, by omega⟩) (ih (by omega))
  cases params with
  | absent => exact .absent
  | present opening params closing =>
    obtain ⟨first, others⟩ := params
    simp only [List.length_append, List.length_cons, List.length_nil] at short
    exact .present opening (.mk ⟨first, by omega⟩ (within others (by omega))) closing

/-- With a bound on the depth that the lexemes cannot exceed. -/
theorem typeWithin_complete (depth : Nat) :
    Complete id (fun ls t => IsType ls t ∧ ls.length ≤ depth) EndsType (typeWithin depth) := by
  induction depth with
  | zero =>
    rintro ls t rest previous notes ⟨type, short⟩ -
    have nonempty := List.length_pos_iff.2 (type_inhabited ls t type)
    omega
  | succ depth ih =>
    rintro ls _ rest previous notes ⟨type, short⟩ ⟨notDot, notLess, notBracket⟩
    refine ⟨_, ?_, rfl⟩
    have some := type_inhabited ls _ type
    have place := place_of_front rest previous notes some
    have comments := comments_of_front rest previous notes some
    obtain ⟨parts, set, name, params, mark⟩ := type
    rename_i as ns ps bs set_ terms ts b
    have shorter : ps.length ≤ depth := by
      have nonempty := List.length_pos_iff.2 (separated_inhabited identifier_inhabited _ _ name)
      simp only [parts, List.length_append] at short
      omega
    obtain ⟨text, -, start⟩ := name_starts name (ps ++ (bs ++ rest))
    have afterParams : nextToken (bs ++ rest) ≠ .mark .less := by
      cases mark with
      | absent => exact notLess
      | present opening _ => simp [nextToken, opening]
    have afterName : nextToken (ps ++ (bs ++ rest)) ≠ .mark .dot := by
      cases params with
      | absent =>
        cases mark with
        | absent => exact notDot
        | present opening _ => simp [nextToken, opening]
      | present opening _ _ => simp [nextToken, opening]
    have hset := annotations_complete.exact (ns ++ (ps ++ (bs ++ rest))) previous notes set
      (by simp [start])
    have hname := qualifiedName_complete.exact _ (lastPlace previous as) notes ⟨terms, name, rfl⟩
      afterName
    have hparams := (typeParams_complete ih).exact _ (lastPlace (lastPlace previous as) ns) notes
      (params_within params shorter) afterParams
    have hmark := arrayMark_complete.exact _
      (lastPlace (lastPlace (lastPlace previous as) ns) ps) notes mark notBracket
    unfold typeWithin
    rw [current_bind, comments]
    simp only [parts, List.append_assoc, lastPlace_append] at place ⊢
    rw [bind_of_ok hset, bind_of_ok hname, bind_of_ok hparams, bind_of_ok hmark, spanFrom_bind,
      place]
    rfl

theorem typeExpr_complete : Complete id IsType EndsType typeExpr := by
  intro ls t rest previous notes type fit
  refine typeWithin_complete _ ls t rest previous notes ⟨type, ?_⟩ fit
  simp

section

variable {l : Lexeme} {rest : List Lexeme} {previous : Location} {notes : List Diagnostic}

theorem literal_of_number {text : String} (token : l.token = .number text) :
    literal ⟨l :: rest, previous, notes⟩ =
      .ok (Literal.ofNumber l.location text).1
        ⟨rest, l.location, notes ++ (Literal.ofNumber l.location text).2⟩ := by
  unfold literal
  have stands : Reading.current ⟨l :: rest, previous, notes⟩ = l := rfl
  rw [current_bind, stands, token]
  rfl

theorem literal_of_string {quoted : String} (token : l.token = .string quoted) :
    literal ⟨l :: rest, previous, notes⟩ =
      .ok (Literal.ofString l.location quoted).1
        ⟨rest, l.location, notes ++ (Literal.ofString l.location quoted).2⟩ := by
  unfold literal
  have stands : Reading.current ⟨l :: rest, previous, notes⟩ = l := rfl
  rw [current_bind, stands, token]
  rfl

end

theorem literal_complete : Complete id IsLiteral (fun _ => True) literal := by
  intro _ v rest previous notes derived _
  refine ⟨v, ?_, rfl⟩
  cases derived with
  | @number l text _ token value =>
    rw [List.singleton_append, literal_of_number token, value, List.append_nil]
    rfl
  | @string l quoted _ token value =>
    rw [List.singleton_append, literal_of_string token, value, List.append_nil]
    rfl

end IdlFrontEnd.Grammar
