import Mathlib.Data.List.Nodup
import UnoBindgen.Settings
import UnoBindgen.Proofs.Identifier

/-!
# What the check of settings accepts

The check stops at the first setting that cannot be used.  When it reaches the end, the naming
options are well-formed: the exported symbols start with an identifier, the guards are surrounded
by characters of identifiers, and the three extensions are different.
-/

namespace UnoBindgen

/-- The extension of an artifact. -/
def NamingOptions.extension (options : NamingOptions) : Artifact → Text
  | .declaration => options.headerExtension
  | .implementation => options.sourceExtension
  | .binding => options.bindingExtension

/-- The naming options that `Settings.check` accepts. -/
structure NamingOptions.WellFormed (options : NamingOptions) : Prop where
  symbolPrefix : isIdentifier options.symbolPrefix = true
  guardPrefix : Settings.isGuardAffix options.guardPrefix = true
  guardSuffix : Settings.isGuardAffix options.guardSuffix = true
  guardSurrounded : options.guardPrefix ≠ [] ∨ options.guardSuffix ≠ []
  extension : ∀ artifact, Settings.isExtension (options.extension artifact) = true
  extensionsDistinct : Function.Injective options.extension

namespace Settings

/-! ## Sequences of checks -/

theorem andThen_eq_ok_iff
    (first : Except Fault Unit)
    (next : Unit → Except Fault Unit) :
    (first >>= next) = .ok () ↔ first = .ok () ∧ next () = .ok () := by
  cases first with
  | error fault => simp [bind, Except.bind]
  | ok done => simp [bind, Except.bind]

theorem guard_eq_ok_iff
    (refused : Prop)
    [Decidable refused]
    (fault : Fault)
    (next : Unit → Except Fault Unit) :
    (if refused then throw fault >>= next else next ()) = .ok () ↔
      ¬ refused ∧ next () = .ok () := by
  by_cases holds : refused
  · simp [holds, throw, throwThe, MonadExceptOf.throw, bind, Except.bind]
  · simp [holds]

/-! ## The single checks -/

theorem checkSymbolPrefix_eq_ok_iff (naming : NamingOptions) :
    checkSymbolPrefix naming = .ok () ↔ isIdentifier naming.symbolPrefix = true := by
  rw [checkSymbolPrefix]
  split <;> simp_all

theorem checkGuard_eq_ok_iff (naming : NamingOptions) :
    checkGuard naming = .ok () ↔
      isGuardAffix naming.guardPrefix = true ∧ isGuardAffix naming.guardSuffix = true ∧
        (naming.guardPrefix ≠ [] ∨ naming.guardSuffix ≠ []) := by
  rw [checkGuard]
  by_cases before : isGuardAffix naming.guardPrefix = true
  · by_cases after : isGuardAffix naming.guardSuffix = true
    · by_cases bare : naming.guardPrefix = [] ∧ naming.guardSuffix = []
      · rw [if_neg (by simp [before]), if_neg (by simp [after]), if_pos (by simp [bare])]
        simp [bare]
      · have surrounded : naming.guardPrefix ≠ [] ∨ naming.guardSuffix ≠ [] := by
          by_cases empty : naming.guardPrefix = []
          · exact Or.inr fun suffixEmpty => bare ⟨empty, suffixEmpty⟩
          · exact Or.inl empty
        simp [before, after, bare, surrounded]
    · simp [before, after]
  · simp [before]

/-- Extensions are accepted when they have the right shape, and differ from the earlier ones and
from each other. -/
theorem checkExtensions_eq_ok_iff
    (earlier entries : List (Setting × Text)) :
    checkExtensions earlier entries = .ok () ↔
      (∀ entry ∈ entries,
        isExtension entry.2 = true ∧ entry.2 ∉ earlier.map Prod.snd) ∧
        (entries.map Prod.snd).Nodup := by
  induction entries generalizing earlier with
  | nil => simp [checkExtensions]
  | cons entry rest induction =>
      obtain ⟨setting, extension⟩ := entry
      rw [checkExtensions, List.forall_mem_cons, List.map_cons, List.nodup_cons]
      by_cases shaped : isExtension extension = true
      · rw [if_neg (by simp [shaped])]
        split
        · rename_i other otherExtension found
          have same : otherExtension = extension := by
            simpa using List.find?_some found
          have member : extension ∈ earlier.map Prod.snd := by
            rw [← same]
            exact List.mem_map_of_mem (List.mem_of_find?_eq_some found)
          simp [member]
        · rename_i absent
          have fresh : extension ∉ earlier.map Prod.snd := by
            intro member
            obtain ⟨entry, entryMember, same⟩ := List.mem_map.1 member
            exact absurd same (by simpa using List.find?_eq_none.1 absent entry entryMember)
          rw [induction]
          simp only [List.map_append, List.map_cons, List.map_nil, List.mem_append,
            List.mem_singleton, not_or]
          constructor
          · rintro ⟨others, distinct⟩
            refine ⟨⟨⟨shaped, fresh⟩, fun later laterMember => ?_⟩, ?_, distinct⟩
            · exact ⟨(others later laterMember).1, (others later laterMember).2.1⟩
            · intro again
              obtain ⟨later, laterMember, same⟩ := List.mem_map.1 again
              exact (others later laterMember).2.2 same
          · rintro ⟨⟨-, others⟩, notAgain, distinct⟩
            refine ⟨fun later laterMember => ?_, distinct⟩
            refine ⟨(others later laterMember).1, (others later laterMember).2, ?_⟩
            intro same
            exact notAgain (List.mem_map.2 ⟨later, laterMember, same⟩)
      · simp [shaped]

theorem checkExtensions_extensions_eq_ok_iff (naming : NamingOptions) :
    checkExtensions [] (extensions naming) = .ok () ↔
      (∀ artifact, isExtension (naming.extension artifact) = true) ∧
        Function.Injective naming.extension := by
  have shapes :
      (∀ entry ∈ extensions naming, isExtension entry.2 = true ∧
        entry.2 ∉ ([] : List (Setting × Text)).map Prod.snd) ↔
      ∀ artifact, isExtension (naming.extension artifact) = true := by
    constructor
    · intro shaped artifact
      cases artifact with
      | declaration => exact (shaped (.headerExtension, _) (by simp [extensions])).1
      | implementation => exact (shaped (.sourceExtension, _) (by simp [extensions])).1
      | binding => exact (shaped (.bindingExtension, _) (by simp [extensions])).1
    · intro shaped entry member
      refine ⟨?_, by simp⟩
      simp only [extensions, List.mem_cons, List.not_mem_nil, or_false] at member
      rcases member with rfl | rfl | rfl
      · exact shaped .declaration
      · exact shaped .implementation
      · exact shaped .binding
  have distinct :
      ((extensions naming).map Prod.snd).Nodup ↔ Function.Injective naming.extension := by
    constructor
    · intro nodup left right same
      simp only [extensions, List.map_cons, List.map_nil, List.nodup_cons, List.mem_cons,
        List.not_mem_nil, or_false, not_or] at nodup
      cases left <;> cases right <;> simp_all [NamingOptions.extension]
    · intro injective
      have all : Artifact.all.Nodup := by decide
      exact show (Artifact.all.map naming.extension).Nodup from all.map injective
  rw [checkExtensions_eq_ok_iff, shapes, distinct]

/-! ## The check as a whole -/

/-- Settings are accepted exactly when each of them can be used. -/
theorem check_eq_ok_iff (settings : Settings) :
    settings.check = .ok () ↔
      settings.outputRoot ≠ [] ∧ settings.naming.WellFormed ∧
        settings.naming.nativeContext.trim ≠ [] ∧ 0 ≤ settings.workers := by
  unfold check
  rw [guard_eq_ok_iff, andThen_eq_ok_iff, andThen_eq_ok_iff, andThen_eq_ok_iff, guard_eq_ok_iff,
    checkSymbolPrefix_eq_ok_iff, checkGuard_eq_ok_iff, checkExtensions_extensions_eq_ok_iff]
  have workers :
      (if settings.workers < 0 then
        throw (Fault.plain
          (Setting.workers.key ++ " must be >= 0, got " ++ Text.ofInt settings.workers))
      else pure () : Except Fault Unit) = .ok () ↔ 0 ≤ settings.workers := by
    by_cases negative : settings.workers < 0
    · simp [negative, throw, throwThe, MonadExceptOf.throw]
    · have enough : 0 ≤ settings.workers := by omega
      simp [negative, enough, pure, Except.pure]
  rw [workers]
  simp only [List.isEmpty_iff]
  constructor
  · rintro ⟨root, symbols, ⟨before, after, surrounded⟩, ⟨shaped, distinct⟩, context, count⟩
    exact ⟨root, ⟨symbols, before, after, surrounded, shaped, distinct⟩, context, count⟩
  · rintro ⟨root, naming, context, count⟩
    exact ⟨root, naming.symbolPrefix,
      ⟨naming.guardPrefix, naming.guardSuffix, naming.guardSurrounded⟩,
      ⟨naming.extension, naming.extensionsDistinct⟩, context, count⟩

end Settings

end UnoBindgen
