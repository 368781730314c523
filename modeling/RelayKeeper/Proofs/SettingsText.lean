import RelayKeeper.Config.SettingsFile
import RelayKeeper.Proofs.TomlEntries
import RelayKeeper.Proofs.TomlWriting

/-! # Settings that are written and loaded

A settings file with a line for some of the fields, in any order and between lines of other keys,
gives the settings that have these fields and the defaults elsewhere. -/
namespace RelayKeeper

inductive Field where
  | serviceName | port | workDir | keysDir | createKeysScript | unitPath | dockerDaemonConfig
  | user | group | runtimeGroup | packages | image | startupTimeoutSecs | checkIntervalSecs
  | stateDir
  deriving DecidableEq, Repr

inductive Setting where
  | text (text : String)
  | texts (texts : List String)
  | place (path : Path)
  | ownPlace (path : Option Path)
  | port (port : UInt16)
  | seconds (seconds : UInt64)
  deriving DecidableEq, Repr

namespace Field

def key : Field → String
  | .serviceName => "service_name"
  | .port => "port"
  | .workDir => "work_dir"
  | .keysDir => "keys_dir"
  | .createKeysScript => "create_keys_script"
  | .unitPath => "unit_path"
  | .dockerDaemonConfig => "docker_daemon_config"
  | .user => "user"
  | .group => "group"
  | .runtimeGroup => "runtime_group"
  | .packages => "packages"
  | .image => "image"
  | .startupTimeoutSecs => "startup_timeout_secs"
  | .checkIntervalSecs => "check_interval_secs"
  | .stateDir => "state_dir"

theorem key_injective {a b : Field} (h : a.key = b.key) : a = b := by
  cases a <;> cases b <;> first | rfl | exact absurd h (by decide)

theorem bare_key (field : Field) : Toml.Bare field.key := by
  cases field <;> simp [Toml.Bare, key, Toml.isBareKeyChar]

def copy (s : Settings) (onto : Settings) : Field → Settings
  | .serviceName => { onto with serviceName := s.serviceName }
  | .port => { onto with port := s.port }
  | .workDir => { onto with workDir := s.workDir }
  | .keysDir => { onto with keysDir := s.keysDir }
  | .createKeysScript => { onto with createKeysScript := s.createKeysScript }
  | .unitPath => { onto with unitPath := s.unitPath }
  | .dockerDaemonConfig => { onto with dockerDaemonConfig := s.dockerDaemonConfig }
  | .user => { onto with user := s.user }
  | .group => { onto with group := s.group }
  | .runtimeGroup => { onto with runtimeGroup := s.runtimeGroup }
  | .packages => { onto with packages := s.packages }
  | .image => { onto with image := s.image }
  | .startupTimeoutSecs => { onto with startupTimeoutSecs := s.startupTimeoutSecs }
  | .checkIntervalSecs => { onto with checkIntervalSecs := s.checkIntervalSecs }
  | .stateDir => { onto with stateDir := s.stateDir }

end Field

def Settings.setting (s : Settings) : Field → Setting
  | .serviceName => .text s.serviceName
  | .port => .port s.port
  | .workDir => .place s.workDir
  | .keysDir => .ownPlace s.keysDir
  | .createKeysScript => .ownPlace s.createKeysScript
  | .unitPath => .place s.unitPath
  | .dockerDaemonConfig => .place s.dockerDaemonConfig
  | .user => .text s.user
  | .group => .text s.group
  | .runtimeGroup => .text s.runtimeGroup
  | .packages => .texts s.packages
  | .image => .text s.image
  | .startupTimeoutSecs => .seconds s.startupTimeoutSecs
  | .checkIntervalSecs => .seconds s.checkIntervalSecs
  | .stateDir => .place s.stateDir

section fields

variable {s onto : Settings}

theorem setting_copy (field other : Field) :
    (field.copy s onto).setting other =
      if other = field then s.setting other else onto.setting other := by
  cases field <;> cases other <;> rfl

/-- Settings that hold the same in every field are the same. -/
theorem Settings.eq_of_setting {s t : Settings} (h : ∀ field, s.setting field = t.setting field) :
    s = t := by
  cases s
  cases t
  simp only [Settings.mk.injEq]
  exact ⟨Setting.text.inj (h .serviceName), Setting.port.inj (h .port),
    Setting.place.inj (h .workDir), Setting.ownPlace.inj (h .keysDir),
    Setting.ownPlace.inj (h .createKeysScript), Setting.place.inj (h .unitPath),
    Setting.place.inj (h .dockerDaemonConfig), Setting.text.inj (h .user),
    Setting.text.inj (h .group), Setting.text.inj (h .runtimeGroup),
    Setting.texts.inj (h .packages), Setting.text.inj (h .image),
    Setting.seconds.inj (h .startupTimeoutSecs), Setting.seconds.inj (h .checkIntervalSecs),
    Setting.place.inj (h .stateDir)⟩

end fields

open Toml (Value)

def Setting.value? : Setting → Option Value
  | .text t => some (.string t)
  | .texts list => some (.array (list.map .string))
  | .place path => some (.string path.text)
  | .ownPlace path => path.map fun path => .string path.text
  | .port n => some (.integer n.toNat)
  | .seconds n => some (.integer n.toNat)

namespace SettingsFile

theorem texts_map (texts : List String) :
    texts? (.array (texts.map .string)) = some texts := by
  have hmap := Record.mapM_map_eq_some (f := text?) (g := .string) (k := id) (fun _ => rfl) texts
  rw [List.map_id] at hmap
  exact hmap

theorem port_toNat (n : UInt16) : port? (.integer n.toNat) = some n := by
  have hlimit : n.toNat < 65536 := n.toNat_lt
  simp [port?, below?, hlimit]

theorem seconds_toNat (n : UInt64) : seconds? (.integer n.toNat) = some n := by
  have hlimit : n.toNat < 18446744073709551616 := n.toNat_lt
  simp [seconds?, below?, hlimit]

/-- The value of a field overrides that field. -/
theorem override_value {s : Settings} {field : Field} {value : Value}
    (h : (s.setting field).value? = some value) (onto : Settings) :
    override onto field.key value = some (field.copy s onto) := by
  cases field with
  | keysDir | createKeysScript =>
    obtain ⟨path, hpath, rfl⟩ := Option.map_eq_some_iff.mp h
    simp only [Field.copy, hpath]
    rfl
  | port =>
    have hread : port? value = some s.port := Option.some.inj h ▸ port_toNat s.port
    change (port? value).map _ = _
    rw [hread, Option.map_some, Field.copy]
  | startupTimeoutSecs =>
    have hread : seconds? value = some s.startupTimeoutSecs :=
      Option.some.inj h ▸ seconds_toNat s.startupTimeoutSecs
    change (seconds? value).map _ = _
    rw [hread, Option.map_some, Field.copy]
  | checkIntervalSecs =>
    have hread : seconds? value = some s.checkIntervalSecs :=
      Option.some.inj h ▸ seconds_toNat s.checkIntervalSecs
    change (seconds? value).map _ = _
    rw [hread, Option.map_some, Field.copy]
  | packages =>
    obtain rfl := Option.some.inj h
    change (texts? _).map _ = _
    rw [texts_map, Option.map_some, Field.copy]
  | _ =>
    obtain rfl := Option.some.inj h
    rfl

theorem override_unknown {key : String} (h : ∀ field : Field, field.key ≠ key) (onto : Settings)
    (value : Value) : override onto key value = some onto := by
  unfold override
  split
  · exact absurd rfl (h .serviceName)
  · exact absurd rfl (h .port)
  · exact absurd rfl (h .workDir)
  · exact absurd rfl (h .keysDir)
  · exact absurd rfl (h .createKeysScript)
  · exact absurd rfl (h .unitPath)
  · exact absurd rfl (h .dockerDaemonConfig)
  · exact absurd rfl (h .user)
  · exact absurd rfl (h .group)
  · exact absurd rfl (h .runtimeGroup)
  · exact absurd rfl (h .packages)
  · exact absurd rfl (h .image)
  · exact absurd rfl (h .startupTimeoutSecs)
  · exact absurd rfl (h .checkIntervalSecs)
  · exact absurd rfl (h .stateDir)
  · rfl

/-! ## Entries -/

open Toml (KeyPath Item Entries Statement Document Apart Says Line inlineTable? entriesValue)

def overrideAll (onto : Settings) (entries : List (String × Value)) : Option Settings :=
  entries.foldlM (fun settings (key, value) => override settings key value) onto

theorem overrideAll_cons (onto : Settings) (key : String) (value : Value)
    (rest : List (String × Value)) : overrideAll onto ((key, value) :: rest) =
      (override onto key value).bind fun settings => overrideAll settings rest :=
  rfl

/-- An item under a key that no field has changes nothing. -/
theorem overrideAll_set_unknown {name : String} (h : ∀ field : Field, field.key ≠ name)
    (item : Item) (onto : Settings) (entries : Entries) :
    overrideAll onto (entriesValue (entries.set name item)) =
      overrideAll onto (entriesValue entries) := by
  induction entries generalizing onto with
  | nil =>
    rw [Entries.set, entriesValue, entriesValue, overrideAll_cons, override_unknown h]
    rfl
  | cons entry rest ih =>
    obtain ⟨first, old⟩ := entry
    by_cases hname : first = name
    · subst hname
      rw [Entries.set, if_pos rfl, entriesValue, entriesValue, overrideAll_cons, overrideAll_cons,
        override_unknown h, override_unknown h]
    · rw [Entries.set, if_neg hname, entriesValue, entriesValue, overrideAll_cons, overrideAll_cons]
      exact congrArg _ (funext fun settings => ih settings)

/-- A value under a key that is not there yet comes after the others. -/
theorem overrideAll_set_new {name : String} {entries : Entries} (h : entries.get? name = none)
    (value : Value) (onto : Settings) :
    overrideAll onto (entriesValue (entries.set name (.value value))) =
      (overrideAll onto (entriesValue entries)).bind fun settings =>
        override settings name value := by
  induction entries generalizing onto with
  | nil => exact Option.bind_fun_some _
  | cons entry rest ih =>
    obtain ⟨first, old⟩ := entry
    have hname : first ≠ name := by
      rintro rfl
      simp [Entries.get?] at h
    have hrest : Entries.get? rest name = none := by
      simpa [Entries.get?, hname] using h
    rw [Entries.set, if_neg hname, entriesValue, entriesValue, overrideAll_cons, overrideAll_cons,
      Option.bind_assoc]
    exact congrArg _ (funext fun settings => ih hrest settings)

/-! ## Parts -/

inductive Part where
  /-- The line of a field. -/
  | field (field : Field)
  /-- An assignment to a key that no field has. -/
  | other (key : KeyPath) (value : Value)
  /-- Blank lines and comments. -/
  | filler

namespace Part

/-- The text of a part. The value of a field is on the line of its key, and another assignment may
be written in any way. -/
def Written (s : Settings) : Part → List Char → Prop
  | .field f, cs => ∃ value, (s.setting f).value? = some value ∧ Line f.key value cs
  | .other key value, cs => Says inlineTable? cs [.assign key value] ∧
      ∀ f : Field, f.key ∉ key.names.head?
  | .filler, cs => Says inlineTable? cs []

def field? : Part → Option Field
  | .field f => some f
  | _ => none

def other? : Part → Option KeyPath
  | .other key _ => some key
  | _ => none

def key? : Part → Option KeyPath
  | .field f => some ⟨[], f.key⟩
  | .other key _ => some key
  | .filler => none

def statements (s : Settings) : Part → List Statement
  | .field f => ((s.setting f).value?.map (.assign ⟨[], f.key⟩)).toList
  | .other key value => [.assign key value]
  | .filler => []

def copy (s : Settings) (onto : Settings) : Part → Settings
  | .field f => f.copy s onto
  | _ => onto

end Part

section parts

variable {s : Settings} {part : Part} {cs : List Char}

theorem says_statements (h : part.Written s cs) : Says inlineTable? cs (part.statements s) := by
  cases part with
  | field f =>
    obtain ⟨value, hvalue, hline⟩ := h
    rw [Part.statements, hvalue]
    exact Toml.says_line f.bare_key hline inlineTable?
  | other key value => exact h.1
  | filler => exact h

/-- The statements of a file are those of its parts. -/
theorem says_parts {parts : List (Part × List Char)} (h : ∀ p ∈ parts, p.1.Written s p.2) :
    Says inlineTable? (Text.joinWith ['\n'] (parts.map (·.2)))
      (parts.flatMap fun p => p.1.statements s) := by
  induction parts with
  | nil => rfl
  | cons p parts ih =>
    have hfirst := says_statements (h p List.mem_cons_self)
    have hrest := ih fun q hq => h q (List.mem_cons_of_mem p hq)
    cases parts with
    | nil => simpa [Text.joinWith] using hfirst
    | cons q parts =>
      have happend := hfirst.append_break hrest
      simpa [Text.joinWith] using happend

/-- What is known of a document while the parts of a file are read: no header stands open, the
settings that its entries make, and which keys are free. -/
structure Reads (settings : Settings) (free : KeyPath → Prop) (d : Document) : Prop where
  closed : d.open_ = []
  settings : overrideAll {} (entriesValue d.root) = some settings
  free : ∀ key, free key → Entries.Free key.last key.above d.root

/-- A free key is assigned, and keys apart from it stay free. -/
theorem Reads.step {onto : Settings} {free : KeyPath → Prop} {d : Document} {key : KeyPath}
    (h : Reads onto free d) (hkey : free key) (value : Value) {after : Settings}
    (hafter : overrideAll {} (entriesValue (Entries.added key.last value key.above d.root)) =
      some after) :
    ∃ d', d.step (.assign key value) = some d' ∧
      Reads after (fun other => free other ∧ Apart key other) d' := by
  have hassign := Entries.assign_of_free (h.free key hkey) value
  refine ⟨{ d with root := Entries.added key.last value key.above d.root }, ?_, h.closed, hafter,
    ?_⟩
  · rw [Document.step, h.closed, Entries.under, hassign, Option.map_some]
  · rintro other ⟨hother, hover, hunder⟩
    exact (h.free other hother).added hover hunder

/-- A part's statements are carried out, and change the settings as the part does. -/
theorem Reads.advance {onto : Settings} {free : KeyPath → Prop} {d : Document}
    (h : Reads onto free d) (hwritten : part.Written s cs) (hfree : ∀ key ∈ part.key?, free key) :
    ∃ d', (part.statements s).foldlM Document.step d = some d' ∧
      Reads (part.copy s onto)
        (fun other => free other ∧ ∀ key ∈ part.key?, Apart key other) d' := by
  cases part with
  | field f =>
    obtain ⟨value, hvalue, -⟩ := hwritten
    have hnone : Entries.get? d.root f.key = none := h.free _ (hfree _ rfl)
    have hafter : overrideAll {} (entriesValue (Entries.added f.key value [] d.root)) =
        some (f.copy s onto) := by
      rw [Entries.added, overrideAll_set_new hnone, h.settings, Option.bind_some,
        override_value hvalue]
    obtain ⟨d', hstep, hreads⟩ := h.step (hfree _ rfl) value hafter
    refine ⟨d', ?_, hreads.closed, hreads.settings, fun other hother =>
      hreads.free other ⟨hother.1, hother.2 _ rfl⟩⟩
    rw [Part.statements, hvalue]
    simpa using hstep
  | other key value =>
    obtain ⟨-, hunknown⟩ := hwritten
    have hafter : overrideAll {} (entriesValue (Entries.added key.last value key.above d.root)) =
        some onto := by
      obtain ⟨name, hname, item, hitem⟩ := Entries.exists_added key value d.root
      rw [hitem, overrideAll_set_unknown, h.settings]
      rintro f rfl
      exact hunknown f hname
    obtain ⟨d', hstep, hreads⟩ := h.step (hfree _ rfl) value hafter
    refine ⟨d', ?_, hreads.closed, hreads.settings, fun other hother =>
      hreads.free other ⟨hother.1, hother.2 _ rfl⟩⟩
    simpa [Part.statements] using hstep
  | filler => exact ⟨d, rfl, h.closed, h.settings, fun other hother => h.free other hother.1⟩

theorem Reads.run {parts : List (Part × List Char)} {onto : Settings} {free : KeyPath → Prop}
    {d : Document} (h : Reads onto free d) (hwritten : ∀ p ∈ parts, p.1.Written s p.2)
    (hfree : ∀ p ∈ parts, ∀ key ∈ p.1.key?, free key)
    (hapart : parts.Pairwise fun p q => ∀ a ∈ p.1.key?, ∀ b ∈ q.1.key?, Apart a b) :
    ∃ d', (parts.flatMap fun p => p.1.statements s).foldlM Document.step d = some d' ∧
      overrideAll {} (entriesValue d'.root) =
        some (parts.foldl (fun onto p => p.1.copy s onto) onto) := by
  induction parts generalizing onto free d with
  | nil => exact ⟨d, rfl, h.settings⟩
  | cons p parts ih =>
    obtain ⟨hfirst, hrest⟩ := List.pairwise_cons.mp hapart
    obtain ⟨d', hstep, hreads⟩ :=
      h.advance (hwritten p List.mem_cons_self) (hfree p List.mem_cons_self)
    obtain ⟨d'', hsteps, hsettings⟩ := ih hreads
      (fun q hq => hwritten q (List.mem_cons_of_mem p hq))
      (fun q hq key hkey => ⟨hfree q (List.mem_cons_of_mem p hq) key hkey,
        fun a ha => hfirst q hq a ha key hkey⟩) hrest
    refine ⟨d'', ?_, hsettings⟩
    rw [List.flatMap_cons, List.foldlM_append, hstep]
    exact hsteps

def fieldsOf (parts : List (Part × List Char)) : List Field :=
  parts.filterMap (·.1.field?)

def othersOf (parts : List (Part × List Char)) : List KeyPath :=
  parts.filterMap (·.1.other?)

/-- The lines of fields decide what a field holds in the end. -/
theorem setting_foldl (parts : List (Part × List Char)) (onto : Settings) (f : Field) :
    (parts.foldl (fun onto p => p.1.copy s onto) onto).setting f =
      if f ∈ fieldsOf parts then s.setting f else onto.setting f := by
  induction parts generalizing onto with
  | nil => rfl
  | cons p parts ih =>
    obtain ⟨part, text⟩ := p
    rw [List.foldl_cons, ih]
    cases part with
    | field g =>
      have hfields : fieldsOf ((.field g, text) :: parts) = g :: fieldsOf parts := rfl
      rw [hfields, Part.copy, setting_copy]
      by_cases hmem : f ∈ fieldsOf parts
      · simp [hmem]
      · by_cases hfield : f = g <;> simp [hmem, hfield]
    | other key value => rfl
    | filler => rfl

/-- The keys of a file's parts are apart if its fields are different and its other keys apart. -/
theorem pairwise_apart {parts : List (Part × List Char)} (hwritten : ∀ p ∈ parts, p.1.Written s p.2)
    (hfields : (fieldsOf parts).Nodup) (hothers : (othersOf parts).Pairwise Apart) :
    parts.Pairwise fun p q => ∀ a ∈ p.1.key?, ∀ b ∈ q.1.key?, Apart a b := by
  have hboth := (List.pairwise_filterMap.mp hfields).and (List.pairwise_filterMap.mp hothers)
  refine hboth.imp_of_mem ?_
  rintro ⟨p, textP⟩ ⟨q, textQ⟩ hp hq ⟨hdifferent, hapart⟩ a ha b hb
  have hwrittenP := hwritten _ hp
  have hwrittenQ := hwritten _ hq
  cases p with
  | filler => cases ha
  | field f =>
    obtain rfl := Option.some.inj ha
    refine Toml.apart_of_head_ne fun hhead => ?_
    cases q with
    | filler => cases hb
    | field g =>
      obtain rfl := Option.some.inj hb
      exact hdifferent f rfl g rfl (Field.key_injective (Option.some.inj hhead))
    | other key value =>
      obtain rfl := Option.some.inj hb
      exact hwrittenQ.2 f hhead.symm
  | other key value =>
    obtain rfl := Option.some.inj ha
    cases q with
    | filler => cases hb
    | field g =>
      obtain rfl := Option.some.inj hb
      exact Toml.apart_of_head_ne fun hhead => hwrittenP.2 g hhead
    | other key' value' =>
      obtain rfl := Option.some.inj hb
      exact hapart key rfl key' rfl

end parts

/-! ## Loading -/

/-- The parts of a file that assigns some fields what they hold in `s`, each once and in any order,
and other keys that are apart from each other. A place that is absent is not written. -/
structure Assigns (s : Settings) (fields : List Field) (parts : List (Part × List Char)) :
    Prop where
  written : ∀ p ∈ parts, p.1.Written s p.2
  once : (fieldsOf parts).Nodup
  named : ∀ f, f ∈ fieldsOf parts ↔ f ∈ fields ∧ (s.setting f).value? ≠ none
  apart : (othersOf parts).Pairwise Apart

def textOf (parts : List (Part × List Char)) : List Char :=
  Text.joinWith ['\n'] (parts.map (·.2))

def loaded (s : Settings) (parts : List (Part × List Char)) : Settings :=
  parts.foldl (fun onto p => p.1.copy s onto) {}

section loading

variable {s : Settings} {fields : List Field} {parts : List (Part × List Char)} {text : String}

theorem parse_parts (h : Assigns s fields parts) (htext : text.toList = textOf parts) :
    parse? text = some (loaded s parts) := by
  have hsays : Toml.statements? inlineTable? text.toList =
      some (parts.flatMap fun p => p.1.statements s) := by
    rw [htext]
    exact (says_parts h.written).statements
  have hempty : Reads {} (fun _ => True) {} := ⟨rfl, rfl, fun key _ => Entries.free_nil _ _⟩
  obtain ⟨d, hrun, hsettings⟩ := hempty.run h.written (fun _ _ _ _ => trivial)
    (pairwise_apart h.written h.once h.apart)
  have hdocument : Toml.parse? text = some (entriesValue d.root) := by
    rw [Toml.parse?, hsays, Option.bind_eq_bind, Option.bind_some, Toml.document?, hrun,
      Option.map_some]
  rw [parse?, hdocument]
  exact hsettings

/-- What a field holds that is not written holds by default. -/
theorem setting_of_value_none {f : Field} (h : (s.setting f).value? = none) :
    s.setting f = ({} : Settings).setting f := by
  cases f with
  | keysDir | createKeysScript => exact congrArg Setting.ownPlace (Option.map_eq_none_iff.mp h)
  | _ => cases h

theorem setting_loaded (h : Assigns s fields parts) (f : Field) :
    (loaded s parts).setting f =
      if f ∈ fields then s.setting f else ({} : Settings).setting f := by
  rw [loaded, setting_foldl]
  by_cases hvalue : (s.setting f).value? = none
  · simp [setting_of_value_none hvalue]
  · simp only [h.named, ne_eq, hvalue, not_false_eq_true, and_true]

/-- A file overrides the fields that it names and no others. The keys and the script that makes them
are in the working directory unless the file gives them a place. -/
theorem load_written (h : Assigns s fields parts) (htext : text.toList = textOf parts)
    {files : FileTree} {path : Path} (hread : files.readText path = .ok text) :
    ∃ result, load files path = .ok result ∧
      (∀ f, result.setting f = if f ∈ fields then s.setting f else ({} : Settings).setting f) ∧
      ((∀ f, f ∈ fields) → result = s) ∧
      result.keysPath =
        (if .keysDir ∈ fields then s.keysDir else none).getD (result.workDir.join "keys") ∧
      result.scriptPath = (if .createKeysScript ∈ fields then s.createKeysScript else none).getD
        (result.workDir.join "create_keys.sh") := by
  have hload : load files path = .ok (loaded s parts) := by
    rw [load, hread]
    simp only [Except.mapError, bind, Except.bind, parse_parts h htext]
  have hsetting := setting_loaded h
  have hkeysDir : (loaded s parts).keysDir = if .keysDir ∈ fields then s.keysDir else none := by
    by_cases hmem : .keysDir ∈ fields <;> simpa [Settings.setting, hmem] using hsetting .keysDir
  have hscript : (loaded s parts).createKeysScript =
      if .createKeysScript ∈ fields then s.createKeysScript else none := by
    by_cases hmem : .createKeysScript ∈ fields <;>
      simpa [Settings.setting, hmem] using hsetting .createKeysScript
  refine ⟨_, hload, hsetting, fun hall => ?_, ?_, ?_⟩
  · exact Settings.eq_of_setting fun f => by rw [hsetting, if_pos (hall f)]
  · rw [Settings.keysPath, hkeysDir]
  · rw [Settings.scriptPath, hscript]

end loading

/-- Every field is written as some value that TOML has, if its number is no larger than one of
sixty-three bits. -/
theorem exists_spells {s : Settings} (hstartup : s.startupTimeoutSecs.toNat < 2 ^ 63)
    (hcheck : s.checkIntervalSecs.toNat < 2 ^ 63) {f : Field} {value : Value}
    (h : (s.setting f).value? = some value) : ∃ cs, Toml.Spells value cs := by
  have htext : ∀ text, ∃ cs, Toml.Spells (.string text) cs := fun text =>
    (Toml.exists_quotes text).imp fun _ => .text
  cases f with
  | keysDir | createKeysScript =>
    obtain ⟨path, -, rfl⟩ := Option.map_eq_some_iff.mp h
    exact htext path.text
  | packages =>
    obtain rfl := Option.some.inj h
    obtain ⟨cs, hlists⟩ := Toml.exists_lists s.packages
    exact ⟨_, .texts hlists⟩
  | port =>
    obtain rfl := Option.some.inj h
    exact ⟨_, .number (Nat.lt_of_lt_of_le s.port.toNat_lt (by decide))⟩
  | startupTimeoutSecs =>
    obtain rfl := Option.some.inj h
    exact ⟨_, .number hstartup⟩
  | checkIntervalSecs =>
    obtain rfl := Option.some.inj h
    exact ⟨_, .number hcheck⟩
  | _ =>
    obtain rfl := Option.some.inj h
    exact htext _

/-- Any fields of any settings can be written, in any order. -/
theorem exists_assigns {s : Settings} (hstartup : s.startupTimeoutSecs.toNat < 2 ^ 63)
    (hcheck : s.checkIntervalSecs.toNat < 2 ^ 63) {fields : List Field} (h : fields.Nodup) :
    ∃ parts, Assigns s fields parts ∧
      fieldsOf parts = fields.filter fun f => (s.setting f).value?.isSome := by
  obtain ⟨parts, hwritten, hothers, hfields⟩ : ∃ parts : List (Part × List Char),
      (∀ p ∈ parts, p.1.Written s p.2) ∧ othersOf parts = [] ∧
        fieldsOf parts = fields.filter fun f => (s.setting f).value?.isSome := by
    clear h
    induction fields with
    | nil => exact ⟨[], nofun, rfl, rfl⟩
    | cons f fields ih =>
      obtain ⟨parts, hwritten, hothers, hfields⟩ := ih
      cases hvalue : (s.setting f).value? with
      | none => exact ⟨parts, hwritten, hothers, by simp [hvalue, hfields]⟩
      | some value =>
        obtain ⟨cs, hspells⟩ := exists_spells hstartup hcheck hvalue
        obtain ⟨line, hline⟩ := hspells.exists_line f.key
        refine ⟨(.field f, line) :: parts, ?_, hothers, ?_⟩
        · exact List.forall_mem_cons.mpr ⟨⟨value, hvalue, hline⟩, hwritten⟩
        · rw [List.filter_cons_of_pos (by simp [hvalue]), ← hfields]
          rfl
  refine ⟨parts, ⟨hwritten, ?_, fun f => ?_, ?_⟩, hfields⟩
  · rw [hfields]
    exact h.filter _
  · rw [hfields, List.mem_filter, Option.isSome_iff_ne_none]
  · rw [hothers]
    exact .nil

def sample : Settings :=
  { port := 2222, keysDir := some ⟨"/k"⟩, packages := ["a\"b"], workDir := ⟨"/w"⟩ }

def sampleParts : List (Part × List Char) :=
  [(.filler, "# relay".toList), (.field .packages, "packages = [\"a\\\"b\",]".toList),
    (.other ⟨["log"], "level"⟩ (.integer 3), "log.level=3".toList),
    (.field .port, "\tport=2222 ".toList), (.filler, []),
    (.field .keysDir, "keys_dir = \"\\u002fk\"".toList)]

def sampleText : String :=
  "# relay\npackages = [\"a\\\"b\",]\nlog.level=3\n\tport=2222 \n\nkeys_dir = \"\\u002fk\""

theorem line_packages :
    Line "packages" (.array [.string "a\"b"]) "packages = [\"a\\\"b\",]".toList := by
  have hforms : Toml.Forms "a\"b".toList (['a'] ++ (['\\', '"'] ++ (['b'] ++ []))) :=
    .cons (.plain rfl (by decide) (by decide)) (.cons .quote
      (.cons (.plain rfl (by decide) (by decide)) .nil))
  have hlists := @Toml.Lists.cons "a\"b" [] [] _ [] _ nofun ⟨_, hforms, rfl⟩ nofun
    (@Toml.Lists.close [] nofun)
  exact @Line.intro "packages" _ [] [' '] [' '] _ [] Toml.space_nil (Toml.space_singleton rfl)
    (Toml.space_singleton rfl) (.texts hlists) Toml.space_nil

theorem line_port : Line "port" (.integer 2222) "\tport=2222 ".toList :=
  @Line.intro "port" _ ['\t'] [] [] _ [' '] (Toml.space_singleton rfl) Toml.space_nil Toml.space_nil
    (.number (n := 2222) (by decide)) (Toml.space_singleton rfl)

theorem line_keysDir :
    Line "keys_dir" (.string "/k") "keys_dir = \"\\u002fk\"".toList := by
  have hforms : Toml.Forms "/k".toList (['\\', 'u', '0', '0', '2', 'f'] ++ (['k'] ++ [])) :=
    .cons (.short rfl rfl) (.cons (.plain rfl (by decide) (by decide)) .nil)
  exact @Line.intro "keys_dir" _ [] [' '] [' '] _ [] Toml.space_nil (Toml.space_singleton rfl)
    (Toml.space_singleton rfl) (.text ⟨_, hforms, rfl⟩) Toml.space_nil

theorem assigns_sample :
    Assigns sample [.keysDir, .packages, .createKeysScript, .port] sampleParts where
  written := by
    have hother : Part.Written sample (.other ⟨["log"], "level"⟩ (.integer 3))
        "log.level=3".toList := by
      refine ⟨rfl, fun f => ?_⟩
      cases f <;> decide
    simp only [sampleParts, List.forall_mem_cons]
    exact ⟨rfl, ⟨_, rfl, line_packages⟩, hother, ⟨_, rfl, line_port⟩, rfl,
      ⟨_, rfl, line_keysDir⟩, nofun⟩
  once := by decide
  named := by
    intro f
    cases f <;> decide
  apart := List.pairwise_singleton ..

/-- The file gives the keys a place, and leaves the script that makes them in the working directory,
which is the default one because the file does not name it. -/
theorem load_written_sample :
    let files := FileTree.empty.put ["relay.toml"] (.file sampleText.toUTF8 FileTree.newFileMode)
    Assigns sample [.keysDir, .packages, .createKeysScript, .port] sampleParts ∧
      sampleText.toList = textOf sampleParts ∧
      files.readText ⟨"/relay.toml"⟩ = .ok sampleText ∧
      ∃ result, load files ⟨"/relay.toml"⟩ = .ok result ∧ result.packages = ["a\"b"] ∧
        result.workDir = ⟨"/srv/tmate-ssh-server"⟩ ∧ result.keysPath = ⟨"/k"⟩ ∧
        result.scriptPath = ⟨"/srv/tmate-ssh-server/create_keys.sh"⟩ := by
  intro files
  have htext : sampleText.toList = textOf sampleParts := by
    rfl
  have hread : files.readText ⟨"/relay.toml"⟩ = .ok sampleText := by
    decide +kernel
  obtain ⟨result, hload, hsetting, -, hkeys, hscript⟩ := load_written assigns_sample htext hread
  have hpackages : result.packages = ["a\"b"] := Setting.texts.inj (hsetting .packages)
  have hworkDir : result.workDir = ⟨"/srv/tmate-ssh-server"⟩ :=
    Setting.place.inj (hsetting .workDir)
  refine ⟨assigns_sample, htext, hread, result, hload, hpackages, hworkDir, hkeys, ?_⟩
  rw [hscript, hworkDir]
  decide +kernel

end SettingsFile

end RelayKeeper
