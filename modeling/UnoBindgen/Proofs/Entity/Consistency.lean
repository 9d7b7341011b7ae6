import UnoBindgen.Entity
import UnoBindgen.Proofs.Fault
import UnoBindgen.Proofs.Identifier

/-!
# What the check of an entity accepts

`Entity.check` walks through a description and stops at its first fault.  The lemmas here say what
holds when it reaches the end: the names along the path of the entity are identifiers, and so are
the names of its methods, parameters and members, without any repetition among names that share a
scope.  Whatever it stops at is reported as an invalid schema.
-/

namespace UnoBindgen.Entity

/-! ## Lists of names -/

/-- A list of names without a fault consists of different identifiers, none of them among the
earlier names. -/
theorem firstNameFault_eq_none_iff
    (missing : Text)
    (malformed repeated : Text → Text)
    (earlier names : List Text) :
    firstNameFault missing malformed repeated earlier names = none ↔
      (∀ name ∈ names, isIdentifier name = true ∧ name ∉ earlier) ∧ names.Nodup := by
  induction names generalizing earlier with
  | nil => simp [firstNameFault]
  | cons name rest induction =>
      rw [firstNameFault]
      by_cases identifier : isIdentifier name = true
      · have nonempty : name ≠ [] := ne_nil_of_isIdentifier identifier
        by_cases seen : name ∈ earlier
        · simp [nonempty, identifier, seen]
        · rw [if_neg nonempty, if_neg (by simp [identifier]), if_neg seen, induction,
            List.forall_mem_cons, List.nodup_cons]
          simp only [List.mem_cons, not_or]
          constructor
          · rintro ⟨others, distinct⟩
            refine ⟨⟨⟨identifier, seen⟩, fun other member => ?_⟩, ?_, distinct⟩
            · exact ⟨(others other member).1, (others other member).2.2⟩
            · intro again
              exact (others name again).2.1 rfl
          · rintro ⟨⟨-, others⟩, fresh, distinct⟩
            refine ⟨fun other member => ⟨(others other member).1, ?_, (others other member).2⟩,
              distinct⟩
            rintro rfl
            exact fresh member
      · have refused : isIdentifier name = false := by simpa using identifier
        constructor
        · intro accepted
          split at accepted
          · exact absurd accepted (by simp)
          · simp [refused] at accepted
        · rintro ⟨identifiers, -⟩
          exact (identifier (identifiers name List.mem_cons_self).1).elim

/-! ## The parts of an entity -/

theorem parameterFault?_eq_none_iff
    (entity : Entity)
    (method : Method) :
    entity.parameterFault? method = none ↔
      (∀ parameter ∈ method.parameters, isIdentifier parameter.name = true) ∧
        (method.parameters.map Field.name).Nodup := by
  rw [parameterFault?, firstNameFault_eq_none_iff]
  simp

theorem memberFault?_eq_none_iff
    (entity : Entity)
    (members : List Field) :
    entity.memberFault? members = none ↔
      (∀ member ∈ members, isIdentifier member.name = true) ∧
        (members.map Field.name).Nodup := by
  rw [memberFault?, firstNameFault_eq_none_iff]
  simp

/-- Methods without a fault have different identifiers as names, none of them among the earlier
ones, and no fault among their parameters. -/
theorem methodFault?_eq_none_iff
    (entity : Entity)
    (earlier : List Text)
    (methods : List Method) :
    entity.methodFault? earlier methods = none ↔
      (∀ method ∈ methods,
        isIdentifier method.name = true ∧ method.name ∉ earlier ∧
          entity.parameterFault? method = none) ∧
        (methods.map Method.name).Nodup := by
  induction methods generalizing earlier with
  | nil => simp [methodFault?]
  | cons method rest induction =>
      rw [methodFault?]
      split
      · rename_i fault faulty
        constructor
        · intro accepted
          exact absurd accepted (by simp)
        · rintro ⟨all, -⟩
          have head := all method List.mem_cons_self
          rw [(firstNameFault_eq_none_iff _ _ _ earlier [method.name]).2
            ⟨by simpa using ⟨head.1, head.2.1⟩, by simp⟩] at faulty
          exact absurd faulty (by simp)
      · rename_i clean
        have head := (firstNameFault_eq_none_iff _ _ _ earlier [method.name]).1 clean
        simp only [List.mem_singleton, forall_eq] at head
        split
        · rename_i fault faulty
          constructor
          · intro accepted
            exact absurd accepted (by simp)
          · rintro ⟨all, -⟩
            rw [(all method List.mem_cons_self).2.2] at faulty
            exact absurd faulty (by simp)
        · rename_i parameters
          rw [induction, List.forall_mem_cons, List.map_cons, List.nodup_cons]
          simp only [List.mem_cons, not_or]
          constructor
          · rintro ⟨others, distinct⟩
            refine ⟨⟨⟨head.1.1, head.1.2, parameters⟩, fun other member => ?_⟩, ?_, distinct⟩
            · have facts := others other member
              exact ⟨facts.1, facts.2.1.2, facts.2.2⟩
            · intro again
              obtain ⟨other, member, same⟩ := List.mem_map.1 again
              exact (others other member).2.1.1 same
          · rintro ⟨⟨-, others⟩, fresh, distinct⟩
            refine ⟨fun other member => ?_, distinct⟩
            have facts := others other member
            refine ⟨facts.1, ⟨?_, facts.2.1⟩, facts.2.2⟩
            intro same
            exact fresh (List.mem_map.2 ⟨other, member, same⟩)

/-! ## The check as a whole -/

theorem check_eq_ok_iff (entity : Entity) :
    entity.check = .ok () ↔ entity.fault? = none := by
  rw [check]
  cases entity.fault? <;> simp

/-- A checked entity has identifiers along its path, one of the kinds, and no fault in the part
that belongs to its kind. -/
theorem fault?_eq_none_iff (entity : Entity) :
    entity.fault? = none ↔
      (∀ segment ∈ entity.path.segments, isIdentifier segment = true) ∧
        ∃ kind, entity.tag = .known kind ∧ entity.partFault? kind = none := by
  have pathSegments :
      (∀ segment ∈ entity.path.segments, isIdentifier segment = true) ↔
        isIdentifier entity.name = true ∧
          ∀ segment ∈ entity.module.segments, isIdentifier segment = true := by
    simp [path, ModulePath.child, or_imp, forall_and, and_comm]
  rw [pathSegments, fault?]
  by_cases identifier : isIdentifier entity.name = true
  · have nonempty : entity.name ≠ [] := ne_nil_of_isIdentifier identifier
    rw [if_neg nonempty, if_neg (by simp [identifier])]
    split
    · rename_i segment found
      have refused := List.find?_some found
      have member := List.mem_of_find?_eq_some found
      constructor
      · intro accepted
        exact absurd accepted (by simp)
      · rintro ⟨⟨-, segments⟩, -⟩
        simp [segments segment member] at refused
    · rename_i none
      have segments :
          ∀ segment ∈ entity.module.segments, isIdentifier segment = true := by
        intro segment member
        simpa using List.find?_eq_none.1 none segment member
      split
      · rename_i kind tag
        constructor
        · intro clean
          exact ⟨⟨identifier, segments⟩, kind, tag, clean⟩
        · rintro ⟨-, other, otherTag, clean⟩
          rw [tag] at otherTag
          cases otherTag
          exact clean
      · rename_i code tag
        simp [tag]
  · have refused : isIdentifier entity.name = false := by simpa using identifier
    constructor
    · intro accepted
      split at accepted
      · exact absurd accepted (by simp)
      · simp [refused] at accepted
    · rintro ⟨⟨accepted, -⟩, -⟩
      exact (identifier accepted).elim

/-- The names along the path of a checked entity are identifiers. -/
theorem isIdentifier_of_mem_path
    {entity : Entity}
    (checked : entity.check = .ok ())
    {segment : Text}
    (member : segment ∈ entity.path.segments) :
    isIdentifier segment = true :=
  ((fault?_eq_none_iff entity).1 ((check_eq_ok_iff entity).1 checked)).1 segment member

/-- A checked entity has no fault in the part that belongs to its kind. -/
theorem partFault?_of_check
    {entity : Entity}
    (checked : entity.check = .ok ())
    {kind : Kind}
    (tag : entity.tag = .known kind) :
    entity.partFault? kind = none := by
  obtain ⟨-, other, otherTag, clean⟩ :=
    (fault?_eq_none_iff entity).1 ((check_eq_ok_iff entity).1 checked)
  obtain rfl : kind = other := KindTag.known.inj (tag.symm.trans otherTag)
  exact clean

theorem methodFault?_of_check
    {entity : Entity}
    (checked : entity.check = .ok ())
    (interface : entity.tag = .known .interface) :
    entity.methodFault? [] (entity.methods?.getD []) = none := by
  have clean := partFault?_of_check checked interface
  rw [partFault?] at clean
  split at clean
  · exact absurd clean (by simp)
  · rename_i methods present
    rw [present]
    exact clean

theorem memberFault?_of_check
    {entity : Entity}
    (checked : entity.check = .ok ())
    (exception : entity.tag = .known .exception) :
    entity.memberFault? (entity.members?.getD []) = none := by
  have clean := partFault?_of_check checked exception
  rw [partFault?] at clean
  split at clean
  · exact absurd clean (by simp)
  · rename_i members present
    rw [present]
    exact clean

/-- The methods of a checked interface and their parameters are named by identifiers. -/
theorem isIdentifier_of_mem_methods
    {entity : Entity}
    (checked : entity.check = .ok ())
    (interface : entity.tag = .known .interface)
    {method : Method}
    (member : method ∈ entity.methods?.getD []) :
    isIdentifier method.name = true ∧
      ∀ parameter ∈ method.parameters, isIdentifier parameter.name = true := by
  have clean := methodFault?_of_check checked interface
  have facts := ((methodFault?_eq_none_iff entity [] _).1 clean).1 method member
  exact ⟨facts.1, ((parameterFault?_eq_none_iff entity method).1 facts.2.2).1⟩

/-- The methods of a checked interface have different names. -/
theorem nodup_methods_of_check
    {entity : Entity}
    (checked : entity.check = .ok ())
    (interface : entity.tag = .known .interface) :
    ((entity.methods?.getD []).map Method.name).Nodup :=
  ((methodFault?_eq_none_iff entity [] _).1 (methodFault?_of_check checked interface)).2

/-- The parameters of a method of a checked interface have different names. -/
theorem nodup_parameters_of_check
    {entity : Entity}
    (checked : entity.check = .ok ())
    (interface : entity.tag = .known .interface)
    {method : Method}
    (member : method ∈ entity.methods?.getD []) :
    (method.parameters.map Field.name).Nodup := by
  have clean := methodFault?_of_check checked interface
  have facts := ((methodFault?_eq_none_iff entity [] _).1 clean).1 method member
  exact ((parameterFault?_eq_none_iff entity method).1 facts.2.2).2

/-- The members of a checked exception are named by identifiers. -/
theorem isIdentifier_of_mem_members
    {entity : Entity}
    (checked : entity.check = .ok ())
    (exception : entity.tag = .known .exception)
    {member : Field}
    (present : member ∈ entity.members?.getD []) :
    isIdentifier member.name = true :=
  ((memberFault?_eq_none_iff entity _).1 (memberFault?_of_check checked exception)).1
    member present

/-! ## The faults of a description -/

theorem carriesOnly_of_firstNameFault
    {missing : Text}
    {malformed repeated : Text → Text}
    {earlier names : List Text}
    {fault : Fault}
    (found : firstNameFault missing malformed repeated earlier names = some fault) :
    fault.CarriesOnly .invalidSchema := by
  induction names generalizing earlier with
  | nil => exact absurd found (by simp [firstNameFault])
  | cons name rest induction =>
      rw [firstNameFault] at found
      split at found
      · exact Option.some.inj found ▸ .invalidSchema _
      · split at found
        · exact Option.some.inj found ▸ .invalidSchema _
        · split at found
          · exact Option.some.inj found ▸ .invalidSchema _
          · exact induction found

theorem carriesOnly_of_methodFault?
    {entity : Entity}
    {earlier : List Text}
    {methods : List Method}
    {fault : Fault}
    (found : entity.methodFault? earlier methods = some fault) :
    fault.CarriesOnly .invalidSchema := by
  induction methods generalizing earlier with
  | nil => exact absurd found (by simp [methodFault?])
  | cons method rest induction =>
      rw [methodFault?] at found
      split at found
      · rename_i named
        exact Option.some.inj found ▸ carriesOnly_of_firstNameFault named
      · split at found
        · rename_i parameters
          exact Option.some.inj found ▸ carriesOnly_of_firstNameFault parameters
        · exact induction found

theorem carriesOnly_of_baseFault?
    {entity : Entity}
    {base : Text}
    {fault : Fault}
    (found : entity.baseFault? base = some fault) :
    fault.CarriesOnly .invalidSchema := by
  rw [baseFault?] at found
  split at found
  · exact Option.some.inj found ▸ .invalidSchema _
  · split at found
    · exact Option.some.inj found ▸ .invalidSchema _
    · split at found
      · exact absurd found (by simp)
      · split at found
        · exact Option.some.inj found ▸ .invalidSchema _
        · exact absurd found (by simp)

theorem carriesOnly_of_partFault?
    {entity : Entity}
    {kind : Kind}
    {fault : Fault}
    (found : entity.partFault? kind = some fault) :
    fault.CarriesOnly .invalidSchema := by
  cases kind with
  | interface =>
      rw [partFault?] at found
      split at found
      · exact Option.some.inj found ▸ .invalidSchema _
      · exact carriesOnly_of_methodFault? found
  | exception =>
      rw [partFault?] at found
      split at found
      · exact Option.some.inj found ▸ .invalidSchema _
      · exact carriesOnly_of_firstNameFault found
  | interfaceSingleton => exact carriesOnly_of_baseFault? found
  | serviceSingleton => exact carriesOnly_of_baseFault? found

/-- Every inconsistency of a description is an invalid schema. -/
theorem carriesOnly_of_check
    {entity : Entity}
    {fault : Fault}
    (refused : entity.check = .error fault) :
    fault.CarriesOnly .invalidSchema := by
  rw [check] at refused
  split at refused
  · rename_i found
    rw [← Except.error.inj refused]
    rw [fault?] at found
    split at found
    · exact Option.some.inj found ▸ .invalidSchema _
    · split at found
      · exact Option.some.inj found ▸ .invalidSchema _
      · split at found
        · exact Option.some.inj found ▸ .invalidSchema _
        · split at found
          · exact carriesOnly_of_partFault? found
          · exact Option.some.inj found ▸ .invalidSchema _
  · exact absurd refused (by simp)

/-! ## A small entity -/

/-- An interface without methods in the module `a`. -/
def bareInterface (name : Text) : Entity :=
  ⟨name, ⟨["a"]⟩, .known .interface, some [], none, none⟩

end UnoBindgen.Entity
