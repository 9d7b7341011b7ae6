import Mathlib
import UnoBindgen.Proofs.Fault
import UnoBindgen.Proofs.Naming.Targets
import UnoBindgen.Proofs.Text.ByteOrder

/-!
# What a registry holds, and what it reports

Entities clash when they share their full name, their symbol stem or their header guard.  The
registry goes through a list once and compares each entity with the ones before it, so what it
reports depends on the order of the list; whether it reports anything does not.

The main theorem describes both outcomes without following that loop.  The report is determined by
the first entity that clashes with an earlier one, and while the entities before it are apart there
is only one such earlier entity.  Between consistent entities the header guard alone decides: equal
names and equal stems have equal guards.
-/

namespace UnoBindgen

namespace Registry

/-! ## Clashes -/

/-- What two entities can share. -/
inductive Clash where
  | fullName
  | stem
  | guard
  deriving DecidableEq, Repr

namespace Clash

/-- The view of an entity that is compared. -/
def view : Clash → Entity → Text
  | .fullName, entity => entity.fullName
  | .stem, entity => entity.path.flattened
  | .guard, entity => entity.path.headerGuard

/-- The clashes that are reported in place of this one. -/
def stronger : Clash → List Clash
  | .fullName => []
  | .stem => [.fullName]
  | .guard => [.fullName, .stem]

/-- The fault that names an entity and the earlier one that it clashes with. -/
def report (other entity : Entity) : Clash → Fault
  | .fullName => .invalidSchema ("duplicate entity " ++ entity.fullName)
  | .stem =>
    .hinted "rename one of them; module paths are joined with '_' in C symbols"
      (.invalidSchema
        ("entities " ++ other.fullName ++ " and " ++ entity.fullName ++
          " share the symbol stem " ++ entity.path.flattened))
  | .guard =>
    .invalidSchema
      ("entities " ++ other.fullName ++ " and " ++ entity.fullName ++
        " share the header guard " ++ entity.path.headerGuard)

/-- An entity shares this with another one behind which it comes, and nothing stronger with any of
the ones before it. -/
structure Meets
    (clash : Clash)
    (before : List Entity)
    (other entity : Entity) :
    Prop where
  earlier : other ∈ before
  shared : clash.view other = clash.view entity
  strongest :
    ∀ instead ∈ clash.stronger, ∀ member ∈ before, instead.view member ≠ instead.view entity

end Clash

/-- The first entity of a list that clashes with an earlier one, with that earlier entity. -/
def FirstClash
    (entities : List Entity)
    (clash : Clash)
    (other entity : Entity) :
    Prop :=
  ∃ before after,
    entities = before ++ entity :: after ∧
      before.Pairwise Entity.Apart ∧
      clash.Meets before other entity

theorem apart_iff_view_ne
    (left right : Entity) :
    left.Apart right ↔ ∀ clash : Clash, clash.view left ≠ clash.view right := by
  constructor
  · rintro apart (_ | _ | _)
    · exact apart.fullNames
    · exact apart.stems
    · exact apart.guards
  · intro differ
    exact ⟨differ .fullName, differ .stem, differ .guard⟩

/-- Apart entities are told apart by each of their views. -/
theorem eq_of_view_eq
    {entities : List Entity}
    (apart : entities.Pairwise Entity.Apart)
    {left right : Entity}
    (leftMember : left ∈ entities)
    (rightMember : right ∈ entities)
    {clash : Clash}
    (same : clash.view left = clash.view right) :
    left = right := by
  by_contra differ
  exact (apart_iff_view_ne left right).1
    (apart.forall leftMember rightMember differ) clash same

theorem find?_view_eq_some_iff
    {entities : List Entity}
    (apart : entities.Pairwise Entity.Apart)
    (clash : Clash)
    (text : Text)
    (entity : Entity) :
    (entities.find? fun other => clash.view other == text) = some entity ↔
      entity ∈ entities ∧ clash.view entity = text := by
  constructor
  · intro found
    have same := List.find?_some found
    exact ⟨List.mem_of_find?_eq_some found, beq_iff_eq.1 same⟩
  · rintro ⟨member, same⟩
    cases found : entities.find? fun other => clash.view other == text with
    | none => exact absurd (beq_iff_eq.2 same) (List.find?_eq_none.1 found entity member)
    | some other =>
        have alike := List.find?_some found
        rw [eq_of_view_eq apart (List.mem_of_find?_eq_some found) member
          ((beq_iff_eq.1 alike).trans same.symm)]

/-! ## The report of a clash -/

/-- An entity behind apart ones clashes in one way with one of them. -/
theorem Clash.Meets.unique
    {before : List Entity}
    (apart : before.Pairwise Entity.Apart)
    {clash another : Clash}
    {other someone entity : Entity}
    (met : clash.Meets before other entity)
    (metAnother : another.Meets before someone entity) :
    clash = another ∧ other = someone := by
  have same : clash = another := by
    by_contra differ
    have ordered : clash ∈ another.stronger ∨ another ∈ clash.stronger := by
      cases clash <;> cases another <;> simp_all [Clash.stronger]
    rcases ordered with weaker | weaker
    · exact metAnother.strongest clash weaker other met.earlier met.shared
    · exact met.strongest another weaker someone metAnother.earlier metAnother.shared
  subst same
  exact ⟨rfl, eq_of_view_eq apart met.earlier metAnother.earlier
    (met.shared.trans metAnother.shared.symm)⟩

/-- An entity that is not apart from all the earlier ones clashes with one of them. -/
theorem exists_meets
    {before : List Entity}
    {entity : Entity}
    (clashing : ¬ ∀ other ∈ before, other.Apart entity) :
    ∃ clash other, Clash.Meets clash before other entity := by
  by_cases named : ∃ other ∈ before, Clash.fullName.view other = Clash.fullName.view entity
  · obtain ⟨other, member, same⟩ := named
    exact ⟨.fullName, other, member, same, by simp [Clash.stronger]⟩
  · push Not at named
    by_cases stemmed : ∃ other ∈ before, Clash.stem.view other = Clash.stem.view entity
    · obtain ⟨other, member, same⟩ := stemmed
      exact ⟨.stem, other, member, same, by simpa [Clash.stronger] using named⟩
    · push Not at stemmed
      by_contra guarded
      push Not at guarded
      apply clashing
      intro other member
      rw [apart_iff_view_ne]
      rintro (_ | _ | _)
      · exact named other member
      · exact stemmed other member
      · intro same
        exact guarded .guard other
          ⟨member, same, by simpa [Clash.stronger] using ⟨named, stemmed⟩⟩

/-- A clash is reported as such. -/
theorem Clash.Meets.clash?_eq
    {before : List Entity}
    (apart : before.Pairwise Entity.Apart)
    {clash : Clash}
    {other entity : Entity}
    (met : clash.Meets before other entity) :
    clash? before entity = some (clash.report other entity) := by
  have found :
      (before.find? fun member => clash.view member == clash.view entity) = some other :=
    (find?_view_eq_some_iff apart clash _ other).2 ⟨met.earlier, met.shared⟩
  have unnamed (free : ∀ member ∈ before, Clash.fullName.view member ≠ Clash.fullName.view entity) :
      ¬ (before.any fun member => member.fullName == entity.fullName) = true := by
    simp only [List.any_eq_true, beq_iff_eq, not_exists, not_and]
    exact free
  rw [clash?]
  cases clash with
  | fullName =>
      have named : (before.any fun member => member.fullName == entity.fullName) = true :=
        List.any_eq_true.2 ⟨other, met.earlier, beq_iff_eq.2 met.shared⟩
      rw [if_pos named]
      rfl
  | stem =>
      rw [if_neg (unnamed (met.strongest .fullName (by decide)))]
      simp only [Clash.view] at found
      rw [found]
      rfl
  | guard =>
      have unstemmed :
          (before.find? fun member => member.path.flattened == entity.path.flattened) =
            none := by
        rw [List.find?_eq_none]
        intro member earlier
        have differs := met.strongest .stem (by decide) member earlier
        simp only [beq_iff_eq]
        exact differs
      rw [if_neg (unnamed (met.strongest .fullName (by decide))), unstemmed]
      simp only [Clash.view] at found
      rw [found]
      rfl

/-- Behind apart entities, an entity is refused with the report of its clash and in no other
way. -/
theorem clash?_eq_some_iff
    {before : List Entity}
    (apart : before.Pairwise Entity.Apart)
    (entity : Entity)
    (fault : Fault) :
    clash? before entity = some fault ↔
      ∃ clash other,
        Clash.Meets clash before other entity ∧ fault = clash.report other entity := by
  constructor
  · intro refused
    have clashing : ¬ ∀ other ∈ before, other.Apart entity := by
      rw [← clash?_eq_none_iff, refused]
      exact Option.some_ne_none fault
    obtain ⟨clash, other, met⟩ := exists_meets clashing
    refine ⟨clash, other, met, ?_⟩
    rw [met.clash?_eq apart] at refused
    exact (Option.some.inj refused).symm
  · rintro ⟨clash, other, met, rfl⟩
    exact met.clash?_eq apart

/-- The loop stops at the first entity that clashes with one before it. -/
theorem firstClash?_eq_some_iff
    {earlier : List Entity}
    (apart : earlier.Pairwise Entity.Apart)
    (entities : List Entity)
    (fault : Fault) :
    firstClash? earlier entities = some fault ↔
      ∃ before entity after clash other,
        entities = before ++ entity :: after ∧
          (earlier ++ before).Pairwise Entity.Apart ∧
          Clash.Meets clash (earlier ++ before) other entity ∧
          fault = clash.report other entity := by
  induction entities generalizing earlier with
  | nil => simp [firstClash?]
  | cons first rest induction =>
      rw [firstClash?]
      cases refused : clash? earlier first with
      | some firstFault =>
          obtain ⟨clash, other, met, rfl⟩ := (clash?_eq_some_iff apart first firstFault).1 refused
          constructor
          · intro same
            refine ⟨[], first, rest, clash, other, rfl, ?_, ?_, (Option.some.inj same).symm⟩
            · rwa [List.append_nil]
            · rwa [List.append_nil]
          · -- The first entity is not apart from the earlier ones, so it ends the list of those
            -- before the clash.
            rintro ⟨before, entity, after, another, someone, split, beforeApart, metAnother, rfl⟩
            cases before with
            | nil =>
                obtain ⟨rfl, -⟩ := List.cons.inj split
                rw [List.append_nil] at metAnother
                obtain ⟨rfl, rfl⟩ := met.unique apart metAnother
                rfl
            | cons head tail =>
                obtain ⟨rfl, -⟩ := List.cons.inj split
                have headApart := (List.pairwise_append.1 beforeApart).2.2 other met.earlier first
                  List.mem_cons_self
                exact ((apart_iff_view_ne other first).1 headApart clash met.shared).elim
      | none =>
          have firstApart := (clash?_eq_none_iff earlier first).1 refused
          have extended : (earlier ++ [first]).Pairwise Entity.Apart := by
            rw [List.pairwise_append]
            refine ⟨apart, List.pairwise_singleton _ first, ?_⟩
            intro other member last lastMember
            rw [List.mem_singleton.1 lastMember]
            exact firstApart other member
          have shift (before : List Entity) :
              earlier ++ [first] ++ before = earlier ++ first :: before := by
            rw [List.append_assoc, List.singleton_append]
          simp only [induction extended, shift]
          constructor
          · rintro ⟨before, entity, after, clash, other, rfl, beforeApart, met, rfl⟩
            exact ⟨first :: before, entity, after, clash, other, rfl, beforeApart, met, rfl⟩
          · rintro ⟨before, entity, after, clash, other, split, beforeApart, met, rfl⟩
            cases before with
            | nil =>
                obtain ⟨rfl, -⟩ := List.cons.inj split
                rw [List.append_nil] at met
                exact ((apart_iff_view_ne other first).1
                  (firstApart other met.earlier) clash met.shared).elim
            | cons head tail =>
                obtain ⟨rfl, rfl⟩ := List.cons.inj split
                exact ⟨tail, entity, after, clash, other, rfl, beforeApart, met, rfl⟩

/-- A list is refused with the report of its first clash and in no other way. -/
theorem ofEntities_eq_error_iff
    (entities : List Entity)
    (fault : Fault) :
    ofEntities entities = .error fault ↔
      ∃ clash other entity,
        FirstClash entities clash other entity ∧ fault = clash.report other entity := by
  have loop := firstClash?_eq_some_iff List.Pairwise.nil entities fault
  simp only [List.nil_append] at loop
  have stopped : ofEntities entities = .error fault ↔ firstClash? [] entities = some fault := by
    rw [ofEntities]
    cases firstClash? [] entities <;> simp
  rw [stopped, loop]
  constructor
  · rintro ⟨before, entity, after, clash, other, split, apart, met, same⟩
    exact ⟨clash, other, entity, ⟨before, after, split, apart, met⟩, same⟩
  · rintro ⟨clash, other, entity, ⟨before, after, split, apart, met⟩, same⟩
    exact ⟨before, entity, after, clash, other, split, apart, met, same⟩

/-- No entity before the first clash clashes with an earlier one. -/
theorem length_le_of_meets
    {before others after rest : List Entity}
    {clash : Clash}
    {other entity next : Entity}
    (same : before ++ entity :: after = others ++ next :: rest)
    (met : clash.Meets before other entity)
    (othersApart : others.Pairwise Entity.Apart) :
    others.length ≤ before.length := by
  by_contra longer
  have first : before ++ [entity] <+: others ++ next :: rest := by
    rw [← same]
    exact ⟨after, by simp⟩
  have second : others <+: others ++ next :: rest := List.prefix_append others _
  have shorter : (before ++ [entity]).length ≤ others.length := by
    rw [List.length_append, List.length_singleton]
    omega
  have start : before ++ [entity] <+: others :=
    List.prefix_of_prefix_length_le first second shorter
  have apart := (List.pairwise_append.1 (othersApart.sublist start.sublist)).2.2
    other met.earlier entity List.mem_cons_self
  exact (apart_iff_view_ne other entity).1 apart clash met.shared

/-- There is only one first clash. -/
theorem FirstClash.unique
    {entities : List Entity}
    {clash another : Clash}
    {other someone entity next : Entity}
    (first : FirstClash entities clash other entity)
    (second : FirstClash entities another someone next) :
    another = clash ∧ someone = other ∧ next = entity := by
  obtain ⟨before, after, split, apart, met⟩ := first
  obtain ⟨others, rest, otherSplit, othersApart, metAnother⟩ := second
  have same : before ++ entity :: after = others ++ next :: rest := split.symm.trans otherSplit
  have lengths : before.length = others.length :=
    Nat.le_antisymm (length_le_of_meets same.symm metAnother apart)
      (length_le_of_meets same met othersApart)
  obtain ⟨rfl, tails⟩ := List.append_inj same lengths
  obtain ⟨rfl, -⟩ := List.cons.inj tails
  obtain ⟨rfl, rfl⟩ := metAnother.unique apart met
  exact ⟨rfl, rfl, rfl⟩

/-! ## The text of a report -/

/-- Two names in a longer text. -/
theorem infix_of_mem_pair
    {named left right : Text}
    (member : named = left ∨ named = right)
    (opening between reason shared : Text) :
    named <:+: opening ++ left ++ between ++ right ++ reason ++ shared := by
  rcases member with rfl | rfl
  · exact ⟨opening, between ++ right ++ reason ++ shared, by simp only [List.append_assoc]⟩
  · exact ⟨opening ++ left ++ between, reason ++ shared, by simp only [List.append_assoc]⟩

theorem Clash.carriesOnly_report
    (clash : Clash)
    (other entity : Entity) :
    (clash.report other entity).CarriesOnly .invalidSchema := by
  cases clash with
  | fullName => exact .invalidSchema _
  | stem => exact (Fault.CarriesOnly.invalidSchema _).hinted _
  | guard => exact .invalidSchema _

/-- The report of a clash shows the names of both entities. -/
theorem Clash.Meets.visible_infix_message
    {before : List Entity}
    {clash : Clash}
    {other entity : Entity}
    (met : clash.Meets before other entity)
    {named : Entity}
    (member : named ∈ [other, entity]) :
    Fault.visible named.fullName <:+: (clash.report other entity).message := by
  have either : named.fullName = other.fullName ∨ named.fullName = entity.fullName := by
    rcases List.mem_cons.1 member with rfl | last
    · exact Or.inl rfl
    · rw [List.mem_singleton.1 last]
      exact Or.inr rfl
  cases clash with
  | fullName =>
      rw [Clash.report]
      apply Fault.visible_infix_message_invalidSchema
      have sameName : named.fullName = entity.fullName :=
        either.elim (fun same => same.trans met.shared) id
      rw [sameName]
      exact (List.suffix_append _ _).isInfix
  | stem =>
      rw [Clash.report, Fault.message_hinted]
      apply Fault.visible_infix_message_invalidSchema
      exact infix_of_mem_pair either _ _ _ _
  | guard =>
      rw [Clash.report]
      apply Fault.visible_infix_message_invalidSchema
      exact infix_of_mem_pair either _ _ _ _

/-! ## Accepted lists -/

/-- What callers read from a registry of these entities. -/
structure Holds
    (registry : Registry)
    (entities : List Entity) :
    Prop where
  entities_eq : registry.entities = entities
  size_eq : registry.size = entities.length
  distinct : (entities.map Entity.fullName).Nodup
  find?_eq_some_iff :
    ∀ fullName entity,
      registry.find? fullName = some entity ↔ entity ∈ entities ∧ entity.fullName = fullName
  find?_eq_none_iff :
    ∀ fullName, registry.find? fullName = none ↔ ∀ entity ∈ entities, entity.fullName ≠ fullName
  sortedNames_perm : registry.sortedNames.Perm (entities.map Entity.fullName)
  increasing : registry.sortedNames.Pairwise fun earlier later => earlier.bytes < later.bytes

theorem holds_of_apart
    {entities : List Entity}
    (apart : entities.Pairwise Entity.Apart) :
    Holds ⟨entities⟩ entities where
  entities_eq := rfl
  size_eq := rfl
  distinct := List.pairwise_map.2 (apart.imp Entity.Apart.fullNames)
  find?_eq_some_iff := find?_view_eq_some_iff apart .fullName
  find?_eq_none_iff fullName := by
    simp only [find?, List.find?_eq_none, beq_iff_eq, ne_eq]
  sortedNames_perm := Text.sort_perm _
  increasing := Text.pairwise_lt_sort (List.pairwise_map.2 (apart.imp Entity.Apart.fullNames))

theorem exists_ofEntities_iff (entities : List Entity) :
    (∃ registry, ofEntities entities = .ok registry) ↔ entities.Pairwise Entity.Apart := by
  simp only [ofEntities_eq_ok_iff, exists_and_left, exists_eq, and_true]

/-! ## Consistent entities -/

/-- Consistent entities with different guards differ in everything that is compared. -/
theorem apart_iff_guards
    {left right : Entity}
    (leftChecked : left.check = .ok ())
    (rightChecked : right.check = .ok ()) :
    left.Apart right ↔ left.path.headerGuard ≠ right.path.headerGuard := by
  constructor
  · exact Entity.Apart.guards
  · intro guards
    have dots (entity : Entity) (checked : entity.check = .ok ()) :
        ∀ segment ∈ entity.path.segments, '.' ∉ segment := fun segment member =>
      not_mem_of_isIdentifier (Entity.hasIdentifiers_path checked segment member) (by decide)
    have nonempty (entity : Entity) : entity.path.segments ≠ [] := by
      simp [Entity.path, ModulePath.child]
    refine ⟨fun sameName => guards ?_, fun sameStem => guards ?_, guards⟩
    · have segments : left.path.segments = right.path.segments :=
        Text.join_injective (nonempty left) (nonempty right) (dots left leftChecked)
          (dots right rightChecked) sameName
      rw [ModulePath.headerGuard, ModulePath.headerGuard, ModulePath.flattened,
        ModulePath.flattened, segments]
    · rw [ModulePath.headerGuard, ModulePath.headerGuard, sameStem]

theorem pairwise_apart_iff_guards
    {entities : List Entity}
    (checked : ∀ entity ∈ entities, entity.check = .ok ()) :
    entities.Pairwise Entity.Apart ↔
      entities.Pairwise fun left right => left.path.headerGuard ≠ right.path.headerGuard :=
  List.Pairwise.iff_of_mem fun leftMember rightMember =>
    apart_iff_guards (checked _ leftMember) (checked _ rightMember)

/--
A list of entities is registered exactly when every two are apart, in whatever order they come.  The
registry then holds the list as it is, finds each entity by its full name and nothing by any other,
and lists the names in the order of their bytes.  A list is otherwise refused with the report of its
one first clash, which is an invalid schema and shows the names of both entities.  Consistent
entities are registered exactly when their header guards are different.
-/
theorem ofEntities_exactly (entities : List Entity) :
    ((∃ registry, ofEntities entities = .ok registry) ↔ entities.Pairwise Entity.Apart) ∧
      (∀ others : List Entity,
        others.Perm entities →
          ((∃ registry, ofEntities others = .ok registry) ↔
            ∃ registry, ofEntities entities = .ok registry)) ∧
      (∀ registry, ofEntities entities = .ok registry → registry.Holds entities) ∧
      (∀ fault,
        ofEntities entities = .error fault ↔
          ∃ clash other entity,
            FirstClash entities clash other entity ∧ fault = clash.report other entity) ∧
      (∀ clash other entity,
        FirstClash entities clash other entity →
          (∀ another someone next,
            FirstClash entities another someone next →
              another = clash ∧ someone = other ∧ next = entity) ∧
            (clash.report other entity).CarriesOnly .invalidSchema ∧
            ∀ named ∈ [other, entity],
              Fault.visible named.fullName <:+: (clash.report other entity).message) ∧
      ((∀ entity ∈ entities, entity.check = .ok ()) →
        ((∃ registry, ofEntities entities = .ok registry) ↔
          entities.Pairwise fun left right =>
            left.path.headerGuard ≠ right.path.headerGuard)) := by
  refine ⟨exists_ofEntities_iff entities, fun others same => ?_, fun registry accepted => ?_,
    ofEntities_eq_error_iff entities, fun clash other entity first => ⟨?_, ?_, ?_⟩,
    fun checked => ?_⟩
  · rw [exists_ofEntities_iff, exists_ofEntities_iff]
    exact same.pairwise_iff Entity.Apart.symm
  · obtain ⟨apart, rfl⟩ := (ofEntities_eq_ok_iff entities registry).1 accepted
    exact holds_of_apart apart
  · exact fun another someone next => first.unique
  · exact clash.carriesOnly_report other entity
  · obtain ⟨before, after, -, -, met⟩ := first
    exact fun named member => met.visible_infix_message member
  · rw [exists_ofEntities_iff]
    exact pairwise_apart_iff_guards checked

end Registry

end UnoBindgen
