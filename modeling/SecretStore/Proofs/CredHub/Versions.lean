import Mathlib.Logic.Relation
import SecretStore.CredHub.Api
import SecretStore.Proofs.Json.Members

namespace SecretStore.CredHub

open Json

inductive BeforeValue : Bytes → Prop where
  | before {start fields data versions blank members value : Bytes} :
      Blank start → Earlier .member fields → Heads "data" data → Earlier .item versions → Blank blank →
      Earlier .member members → Heads "value" value →
      BeforeValue (start ++ octet '\x7b' :: (fields ++ (data ++ octet '[' ::
        (versions ++ (blank ++ octet '\x7b' :: (members ++ value))))))

/-- One value is replaced. The rest of the body may differ. -/
inductive Replaced : Bytes → Bytes → Prop where
  | value {before after : Bytes} {old new : Bytes} : BeforeValue before → Unquoted old → Unquoted new →
      Replaced (before ++ (quoted old ++ after)) (before ++ (quoted new ++ after))

def Revalued : Bytes → Bytes → Prop := Relation.ReflTransGen Replaced

theorem starts_versions {earlier blank : Bytes} (before : Earlier .item earlier) (blanks : Blank blank)
    (rest : Bytes) : Starts (earlier ++ (blank ++ octet '\x7b' :: rest)) := by
  cases before with
  | nil => exact ⟨blank, _, rfl, blanks, _, rest, rfl, by decide⟩
  | cons written _ =>
      rw [List.append_assoc]
      exact written.skips.1.append _

theorem BeforeValue.not_empty {before : Bytes} (place : BeforeValue before) (rest : Bytes) :
    versionsReader.whole (before ++ rest) ≠ .ok [] := by
  cases place with
  | before blanks fields data versions blanks' members value =>
      simp only [List.append_assoc, List.cons_append]
      exact read_behind blanks fields data (starts_versions versions blanks' _)

theorem Revalued.empty_iff {first second : Bytes} (revalued : Revalued first second) :
    versionsReader.whole first = .ok [] ↔ versionsReader.whole second = .ok [] := by
  induction revalued with
  | refl => exact .rfl
  | tail _ replaced ih =>
      refine ih.trans ?_
      cases replaced with
      | value place _ _ => exact iff_of_false (place.not_empty _) (place.not_empty _)

end SecretStore.CredHub
