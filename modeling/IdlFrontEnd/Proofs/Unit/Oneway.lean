import IdlFrontEnd.Proofs.Check.TypeRules
import IdlFrontEnd.Proofs.Unit.Closure

/-!
# What oneway methods send back

A oneway method must return `void` and take input only. The check of a loaded type asks for both,
and for the return type it compares names; a name says nothing about `[]` behind it, and no other
check asks what an array is made of. So nothing comes back from a oneway method of a loaded
interface, in an argument or as a value of a type with parameters, except that its return type may
be written as `void[]`.
-/
namespace IdlFrontEnd

/-- The type is `void` and no more than that. -/
structure TypeExpr.IsVoid (t : TypeExpr) : Prop where
  named : t.head.canonical = some "void"
  bare : t.params = none
  single : t.head.isArray = false

/-- `void` is none of the types that take parameters. -/
theorem TypeExpr.KeepsArity.bare_of_void {t : TypeExpr} (keeps : t.KeepsArity)
    (void : t.head.canonical = some "void") : t.params = none := by
  have own : t.name = "void" := by simp [name, TypeHead.name, void]
  cases written : t.params with
  | none => rfl
  | some ps =>
    rcases keeps ps written with ⟨list, -⟩ | ⟨map, -⟩
    · simp [own] at list
    · simp [own] at map

/-- What is left of the rules for a oneway method when an array of `void` passes for `void`. -/
theorem Method.Lawful.sends_nothing {g : Registry} {interface : Bool} {m : Method}
    (lawful : m.Lawful g interface) (oneway : m.IsOneway interface) :
    m.returnType.head.canonical = some "void" ∧ m.returnType.params = none ∧
      (m.returnType.head.isArray = false → m.returnType.IsVoid) ∧
      ∀ a ∈ m.arguments, a.isOut = false := by
  have void := lawful.returnsNothing oneway
  have bare := (lawful.arities m.returnType List.mem_cons_self _ .self).bare_of_void void
  refine ⟨void, bare, fun single => ⟨void, bare, single⟩, fun a member => ?_⟩
  rw [Argument.isOut, lawful.sendsNothing oneway a member]
  rfl

/-- The type of a loaded unit has passed its checks before its methods were numbered. -/
theorem loadUnit_lawful {provider : SourceProvider} {options : Options} {path : String}
    {c last : Context} {u : LoadedUnit} (loaded : loadUnit provider options path c = .ok u last) :
    ∃ (d : Declaration) (g : Registry), d.KeepsTypeRules g ∧
      u.declaration = d.withMethods (Method.numbered d.methods) := by
  obtain ⟨-, -, -, -, -, after, d, -, -, -, types, -, -, -, rfl, -⟩ := loadUnit_steps loaded
  exact ⟨d, after.registry, (Declaration.checkTypes_passes.1 types).2, rfl⟩

/-- In whatever context an interface is loaded, every method of it that is oneway, by itself or with
the interface, has no argument for output and returns `void`, without parameters and perhaps with
array brackets; without these it is `void` and nothing else. -/
theorem loadUnit_oneway {provider : SourceProvider} {options : Options} {path : String}
    {c last : Context} {u : LoadedUnit} (loaded : loadUnit provider options path c = .ok u last)
    {oneway : Bool} {methods : List Method} {constants : List Constant}
    (interface : u.declaration.body = .interface oneway methods constants) :
    ∀ m ∈ methods, (m.oneway = true ∨ oneway = true) →
      m.returnType.head.canonical = some "void" ∧ m.returnType.params = none ∧
        (m.returnType.head.isArray = false → m.returnType.IsVoid) ∧
        ∀ a ∈ m.arguments, a.isOut = false := by
  obtain ⟨⟨header, body⟩, g, rules, same⟩ := loadUnit_lawful loaded
  rw [same] at interface
  cases body with
  | parcelable | structured => cases interface
  | interface own written others =>
    cases interface
    intro m member alone
    obtain ⟨unnumbered, inside, id, rfl⟩ := Method.of_mem_numbered member
    exact (rules.2.1 unnumbered inside).sends_nothing alone

/-- An interface that is oneway, and so are its methods; one of them is said to return an array of
nothing. -/
def arrayOfNothing : FileStore :=
  FileStore.empty.insert "I.aidl" "oneway interface I { void[] f(); void g(in List<String> x); }"

theorem arrayOfNothing_loaded :
    ∃ u c, loadUnit arrayOfNothing.provider .empty "I.aidl" .empty = .ok u c ∧
      ∃ oneway methods constants, u.declaration.body = .interface oneway methods constants ∧
        methods.map (fun m => (m.oneway, m.returnType.head.isArray)) =
          [(true, true), (true, false)] := by
  have evaluated :
      ofLoaded
          (fun u _ => u.declaration.methods.map fun m => (m.oneway, m.returnType.head.isArray))
        (loadUnit arrayOfNothing.provider .empty "I.aidl" .empty) =
      some [(true, true), (true, false)] := by
    decide +kernel
  obtain ⟨u, c, loaded, arrays⟩ := exists_of_ofLoaded evaluated
  refine ⟨u, c, loaded, ?_⟩
  cases body : u.declaration.body with
  | parcelable | structured => simp [Declaration.methods, body] at arrays
  | interface oneway methods constants =>
    rw [Declaration.methods, body] at arrays
    exact ⟨oneway, methods, constants, rfl, arrays⟩

/-- Not every oneway method of a loaded interface returns `void` alone. -/
theorem oneway_returns_array :
    ¬ ∀ (s : FileStore) (options : Options) (path : String) (u : LoadedUnit) (c : Context),
      loadUnit s.provider options path .empty = .ok u c →
        ∀ oneway methods constants, u.declaration.body = .interface oneway methods constants →
          ∀ m ∈ methods, (m.oneway = true ∨ oneway = true) →
            m.returnType.IsVoid ∧ ∀ a ∈ m.arguments, a.isOut = false := by
  intro claimed
  obtain ⟨u, c, loaded, oneway, methods, constants, body, arrays⟩ := arrayOfNothing_loaded
  have array : (true, true) ∈ methods.map fun m => (m.oneway, m.returnType.head.isArray) := by
    simp [arrays]
  obtain ⟨m, member, said⟩ := List.mem_map.1 array
  obtain ⟨alone, isArray⟩ := Prod.mk.inj said
  have single := (claimed _ _ _ u c loaded oneway methods constants body m member
    (.inl alone)).1.single
  rw [isArray] at single
  cases single

theorem arrayOfNothing_oneway :
    ∃ u c, loadUnit arrayOfNothing.provider .empty "I.aidl" .empty = .ok u c ∧
      ∃ oneway methods constants, u.declaration.body = .interface oneway methods constants ∧
        methods.map (fun m => (m.oneway, m.returnType.head.isArray)) =
          [(true, true), (true, false)] ∧
        ∀ m ∈ methods, (m.oneway = true ∨ oneway = true) →
          m.returnType.head.canonical = some "void" ∧ m.returnType.params = none ∧
            (m.returnType.head.isArray = false → m.returnType.IsVoid) ∧
            ∀ a ∈ m.arguments, a.isOut = false := by
  obtain ⟨u, c, loaded, oneway, methods, constants, body, arrays⟩ := arrayOfNothing_loaded
  exact ⟨u, c, loaded, oneway, methods, constants, body, arrays, loadUnit_oneway loaded body⟩

end IdlFrontEnd
