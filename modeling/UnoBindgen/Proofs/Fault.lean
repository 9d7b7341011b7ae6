import UnoBindgen.Fault

/-!
# Faults that carry one condition

A fault may have several causes.  Most faults have one, the text of a condition inside any number
of contexts and hints; they carry that condition and no other.  Their message shows the contexts.
-/

namespace UnoBindgen

/-- A fault carries a condition and no other, and it reports no broken promise. -/
structure Fault.CarriesOnly (fault : Fault) (condition : Condition) : Prop where
  carries_iff : ∀ other, fault.carries other = true ↔ other = condition
  isAssertion_eq : fault.isAssertion = false

namespace Fault.CarriesOnly

theorem ofCondition (condition : Condition) :
    (Fault.ofCondition condition).CarriesOnly condition where
  carries_iff other := by cases condition <;> cases other <;> decide
  isAssertion_eq := rfl

theorem within
    {fault : Fault}
    {condition : Condition}
    (only : fault.CarriesOnly condition)
    (context : Text) :
    (Fault.within context fault).CarriesOnly condition :=
  ⟨only.carries_iff, only.isAssertion_eq⟩

theorem hinted
    {fault : Fault}
    {condition : Condition}
    (only : fault.CarriesOnly condition)
    (hint : Text) :
    (Fault.hinted hint fault).CarriesOnly condition :=
  ⟨only.carries_iff, only.isAssertion_eq⟩

theorem invalidSchema (reason : Text) :
    (Fault.invalidSchema reason).CarriesOnly .invalidSchema :=
  (ofCondition .invalidSchema).within reason

theorem unsupportedType (typeName : Text) :
    (Fault.unsupportedType typeName).CarriesOnly .unsupportedType :=
  (ofCondition .unsupportedType).within typeName

end Fault.CarriesOnly

namespace Fault

theorem message_within
    (context : Text)
    (cause : Fault) :
    (within context cause).message =
      match visible context with
      | [] => cause.message
      | shown => shown ++ ": " ++ cause.message := rfl

theorem message_hinted
    (hint : Text)
    (cause : Fault) :
    (hinted hint cause).message = cause.message := rfl

theorem visible_prefix_message_within
    (context : Text)
    (cause : Fault) :
    visible context <+: (within context cause).message := by
  rw [message_within]
  split
  · rename_i hidden
    rw [hidden]
    exact List.nil_prefix
  · rw [List.append_assoc]
    exact List.prefix_append _ _

/-- The message of an invalid schema shows every part of the reason. -/
theorem visible_infix_message_invalidSchema
    {part reason : Text}
    (inReason : part <:+: reason) :
    visible part <:+: (invalidSchema reason).message := by
  have shown : visible part <:+: visible reason := inReason.map _
  exact shown.trans (visible_prefix_message_within reason _).isInfix

end Fault

end UnoBindgen
