import Mathlib
import UnoBindgen.Proofs.Toml.Paths
import UnoBindgen.Settings.Lenient

/-!
# Settings taken over from a document

Settings are taken over one after the other, and each of them changes its own value only.  From a
document with a value for every setting they are read exactly when each value has a way to the type
of its setting.
-/

namespace UnoBindgen.Settings

open Toml

/-! ## Assigning settings -/

theorem eq_of_value_eq
    {left right : Settings}
    (same : ∀ setting, left.value setting = right.value setting) :
    left = right := by
  obtain ⟨leftRoot, leftNaming, leftWorkers, leftLogs⟩ := left
  obtain ⟨rightRoot, rightNaming, rightWorkers, rightLogs⟩ := right
  obtain ⟨_, _, _, _, _, _, _⟩ := leftNaming
  obtain ⟨_, _, _, _, _, _, _⟩ := rightNaming
  have root := Value.text.inj (same .outputRoot)
  have symbols := Value.text.inj (same .symbolPrefix)
  have guardStart := Value.text.inj (same .guardPrefix)
  have guardEnd := Value.text.inj (same .guardSuffix)
  have header := Value.text.inj (same .headerExtension)
  have source := Value.text.inj (same .sourceExtension)
  have binding := Value.text.inj (same .bindingExtension)
  have context := Value.text.inj (same .nativeContext)
  have workers := Value.integer.inj (same .workers)
  have logs := Value.truth.inj (same .jsonLogs)
  simp_all

/-- Assigning a setting changes that setting and no other. -/
theorem value_of_assign?
    {settings changed : Settings}
    {setting : Setting}
    {value : Value}
    (assigned : settings.assign? setting value = some changed)
    (other : Setting) :
    changed.value other = if other = setting then value else settings.value other := by
  cases setting <;> cases value <;> simp only [assign?, Setting.form, reduceCtorEq] at assigned <;>
    obtain rfl := Option.some.inj assigned <;> cases other <;> rfl

/-- A value brought to the type of a setting can be assigned. -/
theorem exists_assign?_of_converted?
    {setting : Setting}
    {value brought : Value}
    (conversion : converted? setting value = some brought)
    (settings : Settings) :
    ∃ changed, settings.assign? setting brought = some changed := by
  rw [converted?] at conversion
  cases form : setting.form with
  | text =>
      rw [form] at conversion
      obtain ⟨content, -, rfl⟩ := Option.map_eq_some_iff.1 conversion
      exact ⟨settings.withText content setting, by simp only [assign?, form]⟩
  | number =>
      rw [form] at conversion
      obtain ⟨number, -, rfl⟩ := Option.map_eq_some_iff.1 conversion
      exact ⟨{ settings with workers := number }, by simp only [assign?, form]⟩
  | truth =>
      rw [form] at conversion
      obtain ⟨flag, -, rfl⟩ := Option.map_eq_some_iff.1 conversion
      exact ⟨{ settings with jsonLogs := flag }, by simp only [assign?, form]⟩

/-! ## Taking settings over -/

section TakingOver

variable
  {document : Table}
  {chosen : Setting → Value}
  (complete : ∀ setting : Setting,
    under? [setting.sectionName, setting.name] (.table document) = some (chosen setting))

include complete in
theorem takeOver_eq
    (settings : Settings)
    (setting : Setting) :
    takeOver document settings setting =
      match (converted? setting (chosen setting)).bind (settings.assign? setting) with
      | some changed => .ok changed
      | none => .error (unusable setting) := by
  obtain ⟨inner, here, below⟩ := Option.bind_eq_some_iff.1 (complete setting)
  cases inner with
  | table entries =>
      rw [under?_singleton_table] at below
      cases assigned : (converted? setting (chosen setting)).bind (settings.assign? setting) with
      | none => simp only [takeOver, here, below, assigned]
      | some changed => simp only [takeOver, here, below, assigned]
  | _ => exact absurd below (by simp [under?])

include complete in
theorem foldlM_takeOver_eq_ok_iff
    {remaining : List Setting}
    (nodup : remaining.Nodup)
    (settings result : Settings) :
    remaining.foldlM (takeOver document) settings = .ok result ↔
      (∀ setting ∈ remaining,
        converted? setting (chosen setting) = some (result.value setting)) ∧
        ∀ setting ∉ remaining, result.value setting = settings.value setting := by
  induction remaining generalizing settings with
  | nil =>
      constructor
      · intro done
        obtain rfl : settings = result := by simpa [pure, Except.pure] using done
        simp
      · rintro ⟨-, unchanged⟩
        rw [eq_of_value_eq fun setting => unchanged setting List.not_mem_nil]
        rfl
  | cons setting rest induction =>
      rw [List.nodup_cons] at nodup
      rw [List.foldlM_cons, takeOver_eq complete]
      cases conversion : converted? setting (chosen setting) with
      | none => simp [conversion, bind, Except.bind]
      | some brought =>
          obtain ⟨changed, assigned⟩ := exists_assign?_of_converted? conversion settings
          rw [Option.bind_some, assigned]
          refine (induction nodup.2 changed).trans ?_
          simp only [value_of_assign? assigned]
          constructor
          · rintro ⟨later, unchanged⟩
            have here := unchanged setting nodup.1
            rw [if_pos rfl] at here
            refine ⟨?_, ?_⟩
            · intro other member
              rcases List.mem_cons.1 member with rfl | inRest
              · rw [conversion, here]
              · exact later other inRest
            · intro other outside
              rw [List.mem_cons, not_or] at outside
              rw [unchanged other outside.2, if_neg outside.1]
          · rintro ⟨all, unchanged⟩
            refine ⟨fun other member => all other (List.mem_cons_of_mem setting member), ?_⟩
            intro other outside
            by_cases same : other = setting
            · have here := all setting List.mem_cons_self
              rw [conversion] at here
              rw [if_pos same, same, Option.some.inj here]
            · rw [if_neg same]
              exact unchanged other (by simp [same, outside])

include complete in
/-- A document with a value for every setting gives settings exactly when each value can be brought
to the type of its setting, and the settings have these values. -/
theorem ofDocument_eq_ok_iff (settings : Settings) :
    ofDocument document = .ok settings ↔
      ∀ setting, converted? setting (chosen setting) = some (settings.value setting) := by
  have listed (setting : Setting) : setting ∈ Setting.all := by cases setting <;> decide
  have nodup : Setting.all.Nodup := by decide
  have wrapped : ofDocument document = .ok settings ↔
      Setting.all.foldlM (takeOver document) blank = .ok settings := by
    rw [ofDocument]
    cases Setting.all.foldlM (takeOver document) blank <;> simp
  rw [wrapped, foldlM_takeOver_eq_ok_iff complete nodup]
  constructor
  · rintro ⟨all, -⟩ setting
    exact all setting (listed setting)
  · intro all
    exact ⟨fun setting _ => all setting, fun setting outside => (outside (listed setting)).elim⟩

end TakingOver

/-! ## Settings that were taken over -/

theorem exists_takeOver_of_foldlM
    {document : Table}
    {remaining : List Setting}
    {settings result : Settings}
    (taken : remaining.foldlM (takeOver document) settings = .ok result)
    {setting : Setting}
    (member : setting ∈ remaining) :
    ∃ before after, takeOver document before setting = .ok after := by
  induction remaining generalizing settings with
  | nil => simp at member
  | cons first rest induction =>
      rw [List.foldlM_cons] at taken
      cases step : takeOver document settings first with
      | error fault =>
          rw [step] at taken
          exact absurd taken (by simp [bind, Except.bind])
      | ok changed =>
          rw [step] at taken
          rcases List.mem_cons.1 member with rfl | later
          · exact ⟨settings, changed, step⟩
          · exact induction taken later

/-- A document from which settings are read has no value that cannot be brought to the type of its
setting. -/
theorem converted?_ne_none_of_ofDocument
    {document : Table}
    {settings : Settings}
    (read : ofDocument document = .ok settings)
    {setting : Setting}
    {value : Value}
    (found : under? [setting.sectionName, setting.name] (.table document) = some value) :
    converted? setting value ≠ none := by
  intro unusable
  have listed : setting ∈ Setting.all := by cases setting <;> decide
  have taken : Setting.all.foldlM (takeOver document) blank = .ok settings := by
    rw [ofDocument] at read
    cases result : Setting.all.foldlM (takeOver document) blank with
    | error fault =>
        rw [result] at read
        exact absurd read (by simp)
    | ok other =>
        rw [result] at read
        exact read
  obtain ⟨before, after, step⟩ := exists_takeOver_of_foldlM taken listed
  obtain ⟨inner, here, inside⟩ := Option.bind_eq_some_iff.1 found
  cases inner with
  | table entries =>
      rw [under?_singleton_table] at inside
      simp only [takeOver, here, inside, unusable, Option.bind_none] at step
      exact absurd step (by simp)
  | _ => exact absurd inside (by simp [under?])

end UnoBindgen.Settings
