import IdlFrontEnd.Grammar.SourceFile

/-!
# The grammar of declaration files

What a list of lexemes derives, said without any order of reading: no lookahead, no recovery and no
choice between alternatives. Each relation is one production. A derivation also fixes the place of
every node, from its first lexeme to its last one, and the comments it carries. The grammar leaves
open which annotations in front of a method or an argument are read as those of its type; the type
gets all of them in either case, but its own place depends on that choice.
-/
namespace IdlFrontEnd.Grammar

/-- The place of the last of these lexemes, or `previous` if there are none. -/
def lastPlace (previous : Location) : List Lexeme → Location
  | [] => previous
  | l :: ls => lastPlace l.location ls

/-- From the start of the first lexeme to the end of the last one. -/
def span : List Lexeme → Location
  | [] => .nowhere
  | l :: ls => l.location.upTo (lastPlace l.location ls)

/-- The comments before the first lexeme. -/
def leadComments : List Lexeme → String
  | [] => ""
  | l :: _ => l.comments

/-- `item*` -/
inductive Many {α : Type} (item : List Lexeme → α → Prop) : List Lexeme → List α → Prop
  | nil : Many item [] []
  | cons {ls rest : List Lexeme} {a : α} {as : List α} (first : item ls a)
      (others : Many item rest as) : Many item (ls ++ rest) (a :: as)

/-- `mark item` -/
inductive After {α : Type} (mark : Mark) (item : List Lexeme → α → Prop) : List Lexeme → α → Prop
  | mk {sep : Lexeme} {ls : List Lexeme} {a : α} (separator : sep.token = .mark mark)
      (next : item ls a) : After mark item (sep :: ls) a

/-- `item (mark item)*` -/
inductive Separated {α : Type} (mark : Mark) (item : List Lexeme → α → Prop) :
    List Lexeme → List α → Prop
  | mk {ls rest : List Lexeme} {a : α} {as : List α} (first : item ls a)
      (others : Many (After mark item) rest as) : Separated mark item (ls ++ rest) (a :: as)

/-- `identifier`: a word outside the keywords. -/
inductive IsIdentifier : List Lexeme → String → Prop
  | mk {l : Lexeme} {text : String} (word : l.token = .word text) (free : text ∉ keywords) :
      IsIdentifier [l] text

/-- `name := identifier (. identifier)*` -/
abbrev IsName : List Lexeme → List String → Prop := Separated .dot IsIdentifier

/-- `annotation := @ word`, where the word names an annotation. -/
inductive IsAnnotation : List Lexeme → Annotation → Prop
  | mk {sign l : Lexeme} {a : Annotation} (opening : sign.token = .mark .at)
      (word : l.token = .word a.name) : IsAnnotation [sign, l] a

/-- `annotation*`, as a set. -/
inductive IsAnnotations : List Lexeme → AnnotationSet → Prop
  | mk {ls : List Lexeme} {found : List Annotation} (all : Many IsAnnotation ls found) :
      IsAnnotations ls (.ofList found)

/-- `[< type (, type)* >]` -/
inductive IsParams (type : List Lexeme → TypeExpr → Prop) :
    List Lexeme → Option (List TypeExpr) → Prop
  | absent : IsParams type [] none
  | present {less greater : Lexeme} {ls : List Lexeme} {ts : List TypeExpr}
      (opening : less.token = .mark .less) (params : Separated .comma type ls ts)
      (closing : greater.token = .mark .greater) :
      IsParams type (less :: (ls ++ [greater])) (some ts)

/-- `[ '[' ']' ]` -/
inductive IsArrayMark : List Lexeme → Bool → Prop
  | absent : IsArrayMark [] false
  | present {left right : Lexeme} (opening : left.token = .mark .openBracket)
      (closing : right.token = .mark .closeBracket) : IsArrayMark [left, right] true

/-- `type := annotation* name [< type (, type)* >] [ '[' ']' ]` -/
inductive IsType : List Lexeme → TypeExpr → Prop
  | mk {ls as ns ps bs : List Lexeme} {set : AnnotationSet} {terms : List String}
      {ts : Option (List TypeExpr)} {b : Bool} (parts : ls = as ++ (ns ++ (ps ++ bs)))
      (annotations : IsAnnotations as set) (name : IsName ns terms)
      (params : IsParams IsType ps ts) (mark : IsArrayMark bs b) :
      IsType ls ⟨.fresh (span ls) (Text.joinDots terms) b (leadComments ls) set, ts⟩

/-- `literal`: a number or string that has a value. -/
inductive IsLiteral : List Lexeme → Literal → Prop
  | number {l : Lexeme} {text : String} {v : Literal} (token : l.token = .number text)
      (value : Literal.ofNumber l.location text = (v, [])) : IsLiteral [l] v
  | string {l : Lexeme} {quoted : String} {v : Literal} (token : l.token = .string quoted)
      (value : Literal.ofString l.location quoted = (v, [])) : IsLiteral [l] v

/-- `[= literal]` -/
inductive IsDefault : List Lexeme → Option Literal → Prop
  | absent : IsDefault [] none
  | present {eq : Lexeme} {ls : List Lexeme} {v : Literal} (opening : eq.token = .mark .equals)
      (literal : IsLiteral ls v) : IsDefault (eq :: ls) (some v)

/-- `field := type identifier [= literal] ;` -/
inductive IsField : List Lexeme → Field → Prop
  | mk {ls ts ns vs : List Lexeme} {semi : Lexeme} {t : TypeExpr} {n : String}
      {v : Option Literal} (parts : ls = ts ++ (ns ++ (vs ++ [semi]))) (type : IsType ts t)
      (name : IsIdentifier ns n) (default : IsDefault vs v)
      (closing : semi.token = .mark .semicolon) : IsField ls ⟨span ls, t, n, v⟩

/-- `constant := const type identifier = literal ;` -/
inductive IsConstant : List Lexeme → Constant → Prop
  | mk {ls ts ns vs : List Lexeme} {word eq semi : Lexeme} {t : TypeExpr} {n : String}
      {v : Literal} (parts : ls = word :: (ts ++ (ns ++ eq :: (vs ++ [semi]))))
      (opening : word.token = .word "const") (type : IsType ts t) (name : IsIdentifier ns n)
      (equals : eq.token = .mark .equals) (value : IsLiteral vs v)
      (closing : semi.token = .mark .semicolon) : IsConstant ls ⟨span ls, t, n, v⟩

/-- `[in | out | inout]` -/
inductive IsDirection : List Lexeme → Option Direction → Prop
  | absent : IsDirection [] none
  | present {l : Lexeme} {d : Direction} (word : l.token = .word d.keyword) :
      IsDirection [l] (some d)

/-- `argument := annotation* [in | out | inout] type identifier` -/
inductive IsArgument : List Lexeme → Argument → Prop
  | mk {ls as ds ts ns : List Lexeme} {before : AnnotationSet} {d : Option Direction}
      {t : TypeExpr} {n : String} (parts : ls = as ++ (ds ++ (ts ++ ns)))
      (annotations : IsAnnotations as before) (direction : IsDirection ds d)
      (type : IsType ts t) (name : IsIdentifier ns n) :
      IsArgument ls ⟨span ls, d, withAnnotations t before, n⟩

/-- `( [argument (, argument)*] )` -/
inductive IsArgumentList : List Lexeme → List Argument → Prop
  | empty {left right : Lexeme} (opening : left.token = .mark .openParen)
      (closing : right.token = .mark .closeParen) : IsArgumentList [left, right] []
  | some {left right : Lexeme} {ls : List Lexeme} {args : List Argument}
      (opening : left.token = .mark .openParen) (all : Separated .comma IsArgument ls args)
      (closing : right.token = .mark .closeParen) :
      IsArgumentList (left :: (ls ++ [right])) args

/-- `[= number]`, where the number has 32 bits. -/
inductive IsMethodId : List Lexeme → MethodId → Prop
  | absent : IsMethodId [] .unset
  | present {eq l : Lexeme} {text : String} {n : Int} (opening : eq.token = .mark .equals)
      (token : l.token = .number text) (value : Text.decimal? text = some n) :
      IsMethodId [eq, l] (.written n)

/-- `[oneway]` -/
inductive IsOneway : List Lexeme → Bool → Prop
  | absent : IsOneway [] false
  | present {l : Lexeme} (word : l.token = .word "oneway") : IsOneway [l] true

/-- `method := annotation* [oneway] type identifier ( [argument (, argument)*] ) [= number] ;` -/
inductive IsMethod : List Lexeme → Method → Prop
  | mk {ls as os ts ns gs is : List Lexeme} {semi : Lexeme} {before : AnnotationSet} {b : Bool}
      {t : TypeExpr} {n : String} {args : List Argument} {id : MethodId}
      (parts : ls = as ++ (os ++ (ts ++ (ns ++ (gs ++ (is ++ [semi]))))))
      (annotations : IsAnnotations as before) (oneway : IsOneway os b) (type : IsType ts t)
      (name : IsIdentifier ns n) (arguments : IsArgumentList gs args)
      (number : IsMethodId is id) (closing : semi.token = .mark .semicolon) :
      IsMethod ls ⟨span ls, b, leadComments ls, withAnnotations t before, n, args, id⟩

/-- `member := constant | method` -/
inductive IsMember : List Lexeme → Member → Prop
  | constant {ls : List Lexeme} {c : Constant} (only : IsConstant ls c) :
      IsMember ls (.constant c)
  | method {ls : List Lexeme} {m : Method} (only : IsMethod ls m) : IsMember ls (.method m)

/-- What stands behind the annotations of a declaration that is `all` of these lexemes:
`parcelable name ;`, `parcelable name cpp_header string ;`, `parcelable name { field* }` or
`[oneway] interface identifier { member* }`. -/
inductive IsBody (package : List String) (all : List Lexeme) : List Lexeme → Declaration → Prop
  | parcelable {word semi : Lexeme} {ns : List Lexeme} {terms : List String}
      (opening : word.token = .word "parcelable") (name : IsName ns terms)
      (closing : semi.token = .mark .semicolon) :
      IsBody package all (word :: (ns ++ [semi]))
        (.ofParcelable (span all) ⟨span ns, terms, leadComments all⟩ package "")
  | header {word keyword l semi : Lexeme} {ns : List Lexeme} {terms : List String}
      {quoted : String} (opening : word.token = .word "parcelable") (name : IsName ns terms)
      (mark : keyword.token = .word "cpp_header") (path : l.token = .string quoted)
      (closing : semi.token = .mark .semicolon) :
      IsBody package all (word :: (ns ++ [keyword, l, semi]))
        (.ofParcelable (span all) ⟨span ns, terms, leadComments all⟩ package (unquoted quoted))
  | structured {word left right : Lexeme} {ns ls : List Lexeme} {terms : List String}
      {fs : List Field} (opening : word.token = .word "parcelable") (name : IsName ns terms)
      (brace : left.token = .mark .openBrace) (fields : Many IsField ls fs)
      (closing : right.token = .mark .closeBrace) :
      IsBody package all (word :: (ns ++ left :: (ls ++ [right])))
        (.ofFields (span all) ⟨span ns, terms, leadComments all⟩ package fs)
  | interface {word left right : Lexeme} {os ns ls : List Lexeme} {b : Bool} {n : String}
      {ms : List Member} (oneway : IsOneway os b) (opening : word.token = .word "interface")
      (name : IsIdentifier ns n) (brace : left.token = .mark .openBrace)
      (members : Many IsMember ls ms) (closing : right.token = .mark .closeBrace) :
      IsBody package all (os ++ word :: (ns ++ left :: (ls ++ [right])))
        (.ofMembers (span all) n (leadComments all) b ms package)

/-- `declaration := annotation* (parcelable … | [oneway] interface …)` -/
inductive IsDeclaration (package : List String) : List Lexeme → Declaration → Prop
  | mk {ls as bs : List Lexeme} {set : AnnotationSet} {d : Declaration} (parts : ls = as ++ bs)
      (annotations : IsAnnotations as set) (body : IsBody package ls bs d) :
      IsDeclaration package ls (d.annotate set)

/-- `import name ; | declaration` -/
inductive IsItem (package : List String) : List Lexeme → Item → Prop
  | importing {ls ns : List Lexeme} {word semi : Lexeme} {terms : List String}
      (parts : ls = word :: (ns ++ [semi])) (opening : word.token = .word "import")
      (name : IsName ns terms) (closing : semi.token = .mark .semicolon) :
      IsItem package ls (.importing ⟨span ls, Text.joinDots terms⟩)
  | declaring {ls : List Lexeme} {d : Declaration} (only : IsDeclaration package ls d) :
      IsItem package ls (.declaring d)

/-- `[package name ;]` -/
inductive IsPackage : List Lexeme → Option QualifiedName → Prop
  | absent : IsPackage [] none
  | present {word semi : Lexeme} {ns : List Lexeme} {terms : List String}
      (opening : word.token = .word "package") (name : IsName ns terms)
      (closing : semi.token = .mark .semicolon) :
      IsPackage (word :: (ns ++ [semi])) (some ⟨span ns, terms, leadComments ns⟩)

/-- `file := [package name ;] (import name ; | declaration)*` -/
inductive IsFile : List Lexeme → SourceFile → Prop
  | mk {ps ls : List Lexeme} {package : Option QualifiedName} {items : List Item}
      (opening : IsPackage ps package)
      (all : Many (IsItem ((package.map QualifiedName.terms).getD [])) ls items) :
      IsFile (ps ++ ls)
        ⟨package, items.filterMap Item.statement?, items.filterMap Item.declaration?⟩

end IdlFrontEnd.Grammar
