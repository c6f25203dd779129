import SecretStore.Config.Read
import SecretStore.Config.Write
import SecretStore.Proofs.FixedStore
import SecretStore.Proofs.Yaml.Readers

namespace SecretStore.Config

open Yaml

variable {draft : SettingsDraft} {last : SettingsDraft} {name : String} {mark : Mark}
  {members : List (String × Writable)}

theorem steps_text {set : String → CredHub.Settings → CredHub.Settings}
    (known : settingsFields.find? (·.1 = name) = some (name, .text set))
    (new : draft.given.contains name = false) (value : String)
    (others : Steps (fieldStep settingsField mark) ⟨set value draft.settings, name :: draft.given⟩ members last) :
    Steps (fieldStep settingsField mark) draft ((name, .text value) :: members) last := by
  have field : settingsField draft name = .known (Setting.read draft name (.text set)) := by
    simp only [settingsField, known, new, Bool.false_eq_true, if_false]
  exact steps_field field ((reads_text value).map_ok fun value =>
    (⟨set value draft.settings, name :: draft.given⟩ : SettingsDraft)) others

theorem steps_flag {set : Bool → CredHub.Settings → CredHub.Settings}
    (known : settingsFields.find? (·.1 = name) = some (name, .flag set))
    (new : draft.given.contains name = false) (value : Bool)
    (others : Steps (fieldStep settingsField mark) ⟨set value draft.settings, name :: draft.given⟩ members last) :
    Steps (fieldStep settingsField mark) draft ((name, .flag value) :: members) last := by
  have field : settingsField draft name = .known (Setting.read draft name (.flag set)) := by
    simp only [settingsField, known, new, Bool.false_eq_true, if_false]
  exact steps_field field ((reads_flag value).map_ok fun value =>
    (⟨set value draft.settings, name :: draft.given⟩ : SettingsDraft)) others

theorem reads_settings (settings : CredHub.Settings) :
    Reads settingsReader (valueParts (.map (settingsMembers settings))) (.credHub settings) := by
  have steps (mark : Mark) : Steps (fieldStep settingsField mark) {} (settingsMembers settings)
      ⟨settings, (settingsFields.map (·.1)).reverse⟩ :=
    steps_text rfl rfl _ (steps_text rfl rfl _ (steps_flag rfl rfl _ (steps_text rfl rfl _
      (steps_text rfl rfl _ (steps_text rfl rfl _ (steps_flag rfl rfl _ (steps_flag rfl rfl _ .nil)))))))
  exact reads_record steps rfl

variable {α : Type} {read : Reader α} {value : Writable} {a : α}

theorem reads_onlyField {wanted : String} {finish : Option α → Except Cause Config} {config : Config}
    (name : String) (reads : Reads read (valueParts value) a) (finished : finish (some a) = .ok config) :
    Reads (record wanted none (onlyField name read) finish) (valueParts (.map [(name, value)])) config := by
  refine reads_record (fun mark => steps_field ?_ (reads.map_ok some) .nil) finished
  simp [onlyField]

theorem reads_fixed (entries : Entries) :
    Reads fixedReader (valueParts (.map [(entriesName, entriesWritable entries)])) (.fixed (.ofList entries)) :=
  reads_onlyField entriesName (reads_textMap entries) rfl

theorem ofYaml_written (kind : String) {store : Writable} {reader : Reader Config} {config : Config}
    (named : [(credHubName, settingsReader), (fixedName, fixedReader)].find? (·.1 = kind) = some (kind, reader))
    (reads : Reads reader (valueParts store) config) :
    ofYaml (writeMap [(topName, .map [(kind, store)])]) = .ok config := by
  have file : Reads Config.reader (valueParts (.map [(topName, .map [(kind, store)])])) config :=
    reads_onlyField topName (reads_choice named reads) rfl
  have whole := whole_writeMap (List.cons_ne_nil _ _) file
  rw [ofYaml]
  exact congrArg (Except.mapError Fault.yaml) whole

/-- Any configuration is read back from the text written of it. Static entries come in the order of their keys. -/
theorem ofYaml_toYaml :
    (∀ settings : CredHub.Settings, ofYaml (toYaml (.credHub settings)) = .ok (.credHub settings)) ∧
      ∀ pairs : List (String × String),
        ofYaml (toYaml (.fixed (.ofList pairs))) = .ok (.fixed (.ofList pairs)) := by
  refine ⟨fun settings => ofYaml_written credHubName rfl (reads_settings settings), fun pairs => ?_⟩
  have read := ofYaml_written fixedName rfl (reads_fixed (.ofList pairs))
  rwa [FixedStore.ofList, Entries.ofList_ofList] at read

end SecretStore.Config
