import RelayKeeper.Proofs.FingerprintText
import RelayKeeper.Proofs.KeyReading
import RelayKeeper.Proofs.TreeContents
import RelayKeeper.Proofs.TreeReach

/-! # When the keys are ready

Three things are needed, and the first that is missing is told. When nothing is missing both keys
are read, and the first that is no key is an error. -/
namespace RelayKeeper

namespace Text

theorem not_isBlank_of_mem_wordsOf {cs word : List Char} (h : word ∈ wordsOf cs) :
    ∀ c ∈ word, isBlank c = false := by
  fun_induction wordsOf cs generalizing word with
  | case1 => cases h
  | case2 c cs hc ih => exact ih h
  | case3 c hc =>
    obtain rfl := List.mem_singleton.mp h
    simpa using hc
  | case4 c hc d rest hd ih =>
    rcases List.mem_cons.mp h with rfl | h
    · simpa using hc
    · exact ih h
  | case5 c hc d rest hd hnone ih =>
    rw [hnone] at h
    obtain rfl := List.mem_singleton.mp h
    simpa using hc
  | case6 c hc d rest hd first others hwords ih =>
    rw [hwords] at h ih
    rcases List.mem_cons.mp h with rfl | h
    · intro x hx
      rcases List.mem_cons.mp hx with rfl | hx
      · simpa using hc
      · exact ih List.mem_cons_self x hx
    · exact ih (List.mem_cons_of_mem _ h)

theorem trim_of_mem_words {text word : String} (h : word ∈ words text) : trim word = word := by
  obtain ⟨cs, hcs, rfl⟩ := List.mem_map.mp h
  have hnone := not_isBlank_of_mem_wordsOf hcs
  have htrimmed : Trimmed cs :=
    ⟨fun c hc => hnone c (List.mem_of_head? hc), fun c hc => hnone c (List.mem_of_getLast? hc)⟩
  rw [trim, String.toList_ofList, htrimmed.trimChars_eq]

theorem wordsOf_of_blanks {cs : List Char} (h : Blanks cs) : wordsOf cs = [] := by
  induction cs with
  | nil => rfl
  | cons c cs ih =>
    have hc : isBlank c = true := h c List.mem_cons_self
    have hcs := ih fun d hd => h d (List.mem_cons_of_mem _ hd)
    unfold wordsOf
    rw [if_pos hc, hcs]

end Text

namespace Key

open Base64 (standardText)

/-! ## Keys in files -/

def IsAlgorithmName (name : String) : Prop :=
  (∃ algorithm ∈ Algorithm.standard, algorithm.name = name) ∨
    Algorithm.isDomainName name.toList = true

instance (name : String) : Decidable (IsAlgorithmName name) :=
  inferInstanceAs (Decidable (_ ∨ _))

theorem isSome_ofName_iff {name : String} :
    (Algorithm.ofName? name).isSome ↔ IsAlgorithmName name := by
  unfold Algorithm.ofName? IsAlgorithmName
  cases hfound : Algorithm.standard.find? (·.name == name) with
  | some algorithm =>
    have hname : algorithm.name = name := by simpa using List.find?_some hfound
    have hmem := List.mem_of_find?_eq_some hfound
    exact ⟨fun _ => .inl ⟨algorithm, hmem, hname⟩, fun _ => rfl⟩
  | none =>
    have hother : ¬ ∃ algorithm ∈ Algorithm.standard, algorithm.name = name := by
      simpa using List.find?_eq_none.mp hfound
    by_cases hdomain : Algorithm.isDomainName name.toList = true
    · simp [hdomain]
    · simp [hdomain, hother]

/-- Text whose first two words are the name of an algorithm and the standard's text of a key. -/
def HoldsKey (content : ByteArray) (key : List UInt8) : Prop :=
  ∃ text name rest, String.fromUTF8? content = some text ∧ IsAlgorithmName name ∧
    Text.words text = name :: String.ofList (standardText key) :: rest

def Filled (files : FileTree) (path : Path) : Prop :=
  ∃ place content mode, files.find path = .ok (place, .file content mode) ∧ content.size ≠ 0

def HoldsInvalid (files : FileTree) (path : Path) : Prop :=
  ∃ place content mode, files.find path = .ok (place, .file content mode) ∧ content.size ≠ 0 ∧
    String.fromUTF8? content = none

def HoldsBlanks (files : FileTree) (path : Path) : Prop :=
  ∃ place content mode text, files.find path = .ok (place, .file content mode) ∧
    String.fromUTF8? content = some text ∧ Text.Blanks text.toList

def KeyAt (files : FileTree) (path : Path) (key : List UInt8) : Prop :=
  ∃ place content mode, files.find path = .ok (place, .file content mode) ∧ HoldsKey content key

def KeyError.path : KeyError → Path
  | .unreadable path _ | .noAlgorithm path | .noBlob path | .unknownAlgorithm path _
  | .undecodable path _ => path

section file

variable {files : FileTree} {path : Path} {place : Place} {content : ByteArray} {mode : Nat}

theorem fingerprintFile_of_invalid (h : files.find path = .ok (place, .file content mode))
    (hv : String.fromUTF8? content = none) :
    fingerprintFile files path = .error (.unreadable path .invalidText) := by
  unfold fingerprintFile
  rw [FileTree.readText_of_invalid h hv]
  rfl

theorem fingerprintFile_of_text {text : String}
    (h : files.find path = .ok (place, .file content mode))
    (hv : String.fromUTF8? content = some text) :
    fingerprintFile files path = match PublicKey.parse text with
      | .error error => .error (.ofLine path error)
      | .ok line => (fingerprint line.blob).mapError (.undecodable path) := by
  have hread := FileTree.readText_of_file h hv
  unfold fingerprintFile
  simp only [hread, bind, Except.bind, Except.mapError]
  cases PublicKey.parse text <;> rfl

theorem of_mapError {g : ε → δ} {x : Except ε α} {a : α} (h : x.mapError g = .ok a) :
    x = .ok a := by
  cases x with
  | error fault => cases h
  | ok value => exact congrArg Except.ok (Except.ok.inj h)

theorem parse_eq_ok_iff {text : String} {line : PublicKey} :
    PublicKey.parse text = .ok line ↔ ∃ name rest, Text.words text = name :: line.blob :: rest ∧
      Algorithm.ofName? name = some line.algorithm ∧ line.comment = rest.head? := by
  unfold PublicKey.parse
  constructor
  · intro h
    split at h
    · cases h
    · cases h
    · next name blob rest hwords =>
      split at h
      · next algorithm halgorithm =>
        obtain rfl := Except.ok.inj h
        exact ⟨name, rest, hwords, halgorithm, rfl⟩
      · cases h
  · rintro ⟨name, rest, hwords, halgorithm, hcomment⟩
    rw [hwords]
    simp only [halgorithm, ← hcomment]

theorem fingerprintFile_of_keyAt {key : List UInt8} (h : KeyAt files path key) :
    fingerprintFile files path = .ok (fingerprintOf key) := by
  obtain ⟨place, content, mode, hfind, text, name, rest, htext, hname, hwords⟩ := h
  obtain ⟨algorithm, halgorithm⟩ := Option.isSome_iff_exists.mp (isSome_ofName_iff.mpr hname)
  have hblob : fingerprint (String.ofList (standardText key)) = .ok (fingerprintOf key) := by
    refine fingerprint_eq_ok_iff.mpr ⟨key, keyOf_eq_ok_iff.mpr ?_, rfl⟩
    rw [Text.trim, String.toList_ofList, (Base64.trimmed_standardText key).trimChars_eq]
  have hline : PublicKey.parse text =
      .ok ⟨algorithm, String.ofList (standardText key), rest.head?⟩ :=
    parse_eq_ok_iff.mpr ⟨name, rest, hwords, halgorithm, rfl⟩
  rw [fingerprintFile_of_text hfind htext, hline]
  simp only [hblob]
  rfl

theorem keyAt_of_fingerprintFile {print : String} (h : fingerprintFile files path = .ok print) :
    ∃ key, KeyAt files path key ∧ print = fingerprintOf key := by
  obtain ⟨text, hread, h⟩ := of_bind h
  obtain ⟨line, hparse, h⟩ := of_bind h
  obtain ⟨place, content, mode, hfind, htext⟩ := FileTree.of_readText (of_mapError hread)
  obtain ⟨name, rest, hwords, halgorithm, -⟩ := parse_eq_ok_iff.mp (of_mapError hparse)
  obtain ⟨key, hkey, rfl⟩ := fingerprint_eq_ok_iff.mp (of_mapError h)
  have hname : IsAlgorithmName name := isSome_ofName_iff.mp (by rw [halgorithm]; rfl)
  -- A word has no blanks around it, so it is the text of the key itself.
  have hblob : Text.trim line.blob = line.blob :=
    Text.trim_of_mem_words (by rw [hwords]; simp)
  rw [keyOf_eq_ok_iff, hblob] at hkey
  exact ⟨key, ⟨place, content, mode, hfind, text, name, rest, htext, hname, hkey ▸ hwords⟩, rfl⟩

/-- An error is about the file; that it cannot be read is told of text that is no UTF-8 alone. -/
theorem of_fingerprintFile_error {error : KeyError} (hp : Filled files path)
    (h : fingerprintFile files path = .error error) :
    error.path = path ∧ ∀ other cause, error = .unreadable other cause →
      cause = .invalidText ∧ HoldsInvalid files other := by
  obtain ⟨place, content, mode, hfind, hsize⟩ := hp
  cases htext : String.fromUTF8? content with
  | none =>
    rw [fingerprintFile_of_invalid hfind htext] at h
    obtain rfl := Except.error.inj h
    refine ⟨rfl, fun other cause heq => ?_⟩
    obtain ⟨rfl, rfl⟩ := KeyError.unreadable.inj heq
    exact ⟨rfl, place, content, mode, hfind, hsize, htext⟩
  | some text =>
    rw [fingerprintFile_of_text hfind htext] at h
    cases hparse : PublicKey.parse text with
    | error lineError =>
      rw [hparse] at h
      obtain rfl := Except.error.inj h
      cases lineError <;> exact ⟨rfl, fun _ _ heq => by cases heq⟩
    | ok line =>
      rw [hparse] at h
      cases hprint : fingerprint line.blob with
      | error cause =>
        simp only [hprint] at h
        obtain rfl := Except.error.inj h
        exact ⟨rfl, fun _ _ heq => by cases heq⟩
      | ok print =>
        simp only [hprint] at h
        cases h

theorem not_keyAt_of_error {error : KeyError} (h : fingerprintFile files path = .error error)
    (key : List UInt8) : ¬ KeyAt files path key := by
  intro hkey
  rw [fingerprintFile_of_keyAt hkey] at h
  cases h

theorem not_keyAt_of_blanks (h : HoldsBlanks files path) (key : List UInt8) :
    ¬ KeyAt files path key := by
  rintro ⟨_, _, _, hother, read, name, rest, htext, -, hwords⟩
  obtain ⟨place, content, mode, text, hfind, hread, hblanks⟩ := h
  obtain ⟨⟩ := hfind.symm.trans hother
  obtain rfl := Option.some.inj (hread.symm.trans htext)
  rw [Text.words, Text.wordsOf_of_blanks hblanks] at hwords
  cases hwords

end file

/-! ## Both keys -/

namespace Material

variable (m : Material) (files : FileTree)

structure Provided : Prop where
  directory : ∃ place, files.find m.directory = .ok (place, .directory)
  rsa : Filled files m.rsaPublicKey
  ed25519 : Filled files m.ed25519PublicKey

/-- What is missing, with nothing missing before it. -/
inductive FirstMissing : Path → Prop where
  | directory : (¬ ∃ place, files.find m.directory = .ok (place, .directory)) →
      FirstMissing m.directory
  | rsa : (∃ place, files.find m.directory = .ok (place, .directory)) →
      ¬ Filled files m.rsaPublicKey → FirstMissing m.rsaPublicKey
  | ed25519 : (∃ place, files.find m.directory = .ok (place, .directory)) →
      Filled files m.rsaPublicKey → ¬ Filled files m.ed25519PublicKey →
      FirstMissing m.ed25519PublicKey

variable {m : Material} {files : FileTree} {path : Path}

theorem isFilled_iff : isFilled files path = true ↔ Filled files path := by
  unfold isFilled Filled
  constructor
  · intro h
    split at h
    · next place content mode hfind => exact ⟨place, content, mode, hfind, by simpa using h⟩
    · cases h
  · rintro ⟨place, content, mode, hfind, hsize⟩
    rw [hfind]
    simpa using hsize

theorem Provided.missing_eq (h : m.Provided files) : m.missing? files = none := by
  have hd := FileTree.isDirectory_iff.mpr h.directory
  have hr := isFilled_iff.mpr h.rsa
  have he := isFilled_iff.mpr h.ed25519
  simp [missing?, hd, hr, he]

theorem FirstMissing.missing_eq (h : m.FirstMissing files path) :
    m.missing? files = some ⟨path⟩ := by
  cases h with
  | directory hd =>
    rw [← FileTree.isDirectory_iff] at hd
    simp [missing?, hd]
  | rsa hd hr =>
    rw [← FileTree.isDirectory_iff] at hd
    rw [← isFilled_iff] at hr
    simp [missing?, hd, hr]
  | ed25519 hd hr he =>
    rw [← FileTree.isDirectory_iff] at hd
    rw [← isFilled_iff] at hr he
    simp [missing?, hd, hr, he]

theorem provided_or_missing (m : Material) (files : FileTree) :
    m.Provided files ∨ ∃ path, m.FirstMissing files path := by
  by_cases hd : ∃ place, files.find m.directory = .ok (place, .directory)
  · by_cases hr : Filled files m.rsaPublicKey
    · by_cases he : Filled files m.ed25519PublicKey
      · exact .inl ⟨hd, hr, he⟩
      · exact .inr ⟨_, .ed25519 hd hr he⟩
    · exact .inr ⟨_, .rsa hd hr⟩
  · exact .inr ⟨_, .directory hd⟩

theorem FirstMissing.fingerprints_eq (h : m.FirstMissing files path) :
    m.fingerprints files = .ok (.notReady ⟨path⟩) := by
  rw [fingerprints, h.missing_eq]

/-- When nothing is missing, the RSA key is read first. -/
theorem Provided.fingerprints_eq (h : m.Provided files) :
    m.fingerprints files = (do
      let rsa ← fingerprintFile files m.rsaPublicKey
      let ed25519 ← fingerprintFile files m.ed25519PublicKey
      .ok (.ready ⟨rsa, ed25519⟩)) := by
  rw [fingerprints, h.missing_eq]

/-- The first file without a key is the error; if there is none, both keys are told. -/
theorem Provided.cases (h : m.Provided files) :
    (∃ error, m.fingerprints files = .error error ∧
        fingerprintFile files m.rsaPublicKey = .error error ∧
        ∀ key, ¬ KeyAt files m.rsaPublicKey key) ∨
      (∃ error rsa, m.fingerprints files = .error error ∧ KeyAt files m.rsaPublicKey rsa ∧
        fingerprintFile files m.ed25519PublicKey = .error error ∧
        ∀ key, ¬ KeyAt files m.ed25519PublicKey key) ∨
      ∃ rsa ed25519, KeyAt files m.rsaPublicKey rsa ∧ KeyAt files m.ed25519PublicKey ed25519 ∧
        m.fingerprints files = .ok (.ready ⟨fingerprintOf rsa, fingerprintOf ed25519⟩) := by
  have heq := h.fingerprints_eq
  cases hrsa : fingerprintFile files m.rsaPublicKey with
  | error error =>
    rw [hrsa] at heq
    exact .inl ⟨error, heq, rfl, not_keyAt_of_error hrsa⟩
  | ok rsaPrint =>
    obtain ⟨rsa, hrsaKey, rfl⟩ := keyAt_of_fingerprintFile hrsa
    cases hed : fingerprintFile files m.ed25519PublicKey with
    | error error =>
      rw [hrsa, hed] at heq
      exact .inr (.inl ⟨error, rsa, heq, hrsaKey, rfl, not_keyAt_of_error hed⟩)
    | ok edPrint =>
      obtain ⟨ed25519, hedKey, rfl⟩ := keyAt_of_fingerprintFile hed
      rw [hrsa, hed] at heq
      exact .inr (.inr ⟨rsa, ed25519, hrsaKey, hedKey, heq⟩)

/-- Two files that are there make a directory of the path before them, unless it is empty. -/
theorem provided_iff (hpath : m.directory.text ≠ "") :
    m.Provided files ↔ Filled files m.rsaPublicKey ∧ Filled files m.ed25519PublicKey := by
  constructor
  · intro h
    exact ⟨h.rsa, h.ed25519⟩
  · rintro ⟨hrsa, hed⟩
    refine ⟨?_, hrsa, hed⟩
    obtain ⟨place, content, mode, hfind, -⟩ := hrsa
    obtain ⟨_, hdirectory, -⟩ := FileTree.directory_of_find_join isName_rsa.toIsPlain
      (by simpa [Path.chars] using hpath) hfind
    exact ⟨_, hdirectory⟩

theorem notReady_iff :
    m.fingerprints files = .ok (.notReady ⟨path⟩) ↔ m.FirstMissing files path := by
  constructor
  · intro h
    rcases provided_or_missing m files with hp | ⟨other, hmissing⟩
    · rcases hp.cases with ⟨_, heq, -⟩ | ⟨_, _, heq, -⟩ | ⟨_, _, -, -, heq⟩ <;>
        cases heq.symm.trans h
    · cases hmissing.fingerprints_eq.symm.trans h
      exact hmissing
  · exact FirstMissing.fingerprints_eq

theorem of_error {error : KeyError} (h : m.fingerprints files = .error error) :
    m.Provided files ∧
      (fingerprintFile files m.rsaPublicKey = .error error ∧
          (∀ key, ¬ KeyAt files m.rsaPublicKey key) ∨
        fingerprintFile files m.ed25519PublicKey = .error error ∧
          (∀ key, ¬ KeyAt files m.ed25519PublicKey key) ∧
          ∃ key, KeyAt files m.rsaPublicKey key) := by
  rcases provided_or_missing m files with hp | ⟨_, hmissing⟩
  · refine ⟨hp, ?_⟩
    rcases hp.cases with ⟨_, heq, hfile, hno⟩ | ⟨_, rsa, heq, hrsa, hfile, hno⟩ | ⟨_, _, -, -, heq⟩
    · cases heq.symm.trans h
      exact .inl ⟨hfile, hno⟩
    · cases heq.symm.trans h
      exact .inr ⟨hfile, hno, rsa, hrsa⟩
    · cases heq.symm.trans h
  · cases hmissing.fingerprints_eq.symm.trans h

theorem error_iff :
    (∃ error, m.fingerprints files = .error error) ↔
      m.Provided files ∧ ¬ ((∃ key, KeyAt files m.rsaPublicKey key) ∧
        ∃ key, KeyAt files m.ed25519PublicKey key) := by
  constructor
  · rintro ⟨error, h⟩
    obtain ⟨hp, ⟨-, hno⟩ | ⟨-, hno, -⟩⟩ := of_error h
    · exact ⟨hp, fun ⟨⟨key, hkey⟩, _⟩ => hno key hkey⟩
    · exact ⟨hp, fun ⟨_, key, hkey⟩ => hno key hkey⟩
  · rintro ⟨hp, hbad⟩
    rcases hp.cases with ⟨error, heq, -⟩ | ⟨error, _, heq, -⟩ | ⟨rsa, ed25519, hrsa, hed, -⟩
    · exact ⟨error, heq⟩
    · exact ⟨error, heq⟩
    · exact absurd ⟨⟨rsa, hrsa⟩, ed25519, hed⟩ hbad

/-- The first file without a key is the one that the error is about. -/
theorem blamed_of_error {error : KeyError} (h : m.fingerprints files = .error error) :
    ((∀ key, ¬ KeyAt files m.rsaPublicKey key) → error.path = m.rsaPublicKey) ∧
      ((∃ key, KeyAt files m.rsaPublicKey key) → error.path = m.ed25519PublicKey) ∧
      ∀ path cause, error = .unreadable path cause →
        cause = .invalidText ∧ HoldsInvalid files path := by
  obtain ⟨hp, ⟨hfile, hno⟩ | ⟨hfile, -, key, hkey⟩⟩ := of_error h
  · obtain ⟨hpath, hcause⟩ := of_fingerprintFile_error hp.rsa hfile
    refine ⟨fun _ => hpath, fun ⟨key, hkey⟩ => absurd hkey (hno key), hcause⟩
  · obtain ⟨hpath, hcause⟩ := of_fingerprintFile_error hp.ed25519 hfile
    refine ⟨fun hno => absurd hkey (hno key), fun _ => hpath, hcause⟩

theorem ready_iff {prints : Fingerprints} :
    m.fingerprints files = .ok (.ready prints) ↔
      m.Provided files ∧ ∃ rsa ed25519, KeyAt files m.rsaPublicKey rsa ∧
        KeyAt files m.ed25519PublicKey ed25519 ∧
        prints = ⟨fingerprintOf rsa, fingerprintOf ed25519⟩ := by
  constructor
  · intro h
    rcases provided_or_missing m files with hp | ⟨_, hmissing⟩
    · refine ⟨hp, ?_⟩
      rcases hp.cases with ⟨_, heq, -⟩ | ⟨_, _, heq, -⟩ | ⟨rsa, ed25519, hrsa, hed, heq⟩
      · cases heq.symm.trans h
      · cases heq.symm.trans h
      · cases heq.symm.trans h
        exact ⟨rsa, ed25519, hrsa, hed, rfl⟩
    · cases hmissing.fingerprints_eq.symm.trans h
  · rintro ⟨hp, rsa, ed25519, hrsa, hed, rfl⟩
    rw [hp.fingerprints_eq, fingerprintFile_of_keyAt hrsa, fingerprintFile_of_keyAt hed]
    rfl

theorem find_of_read {content : ByteArray} (h : files.read path = .ok content) :
    ∃ place mode, files.find path = .ok (place, .file content mode) := by
  obtain ⟨⟨place, node⟩, hfind, hnode⟩ := of_bind h
  cases node with
  | directory => cases hnode
  | file held mode =>
    obtain rfl : held = content := Except.ok.inj hnode
    exact ⟨place, mode, hfind⟩

theorem read_of_find {place : Place} {content : ByteArray} {mode : Nat}
    (h : files.find path = .ok (place, .file content mode)) : files.read path = .ok content := by
  unfold FileTree.read
  rw [h]
  rfl

section reading

variable {later : FileTree}

theorem filled_of_read (h : files.read path = later.read path) (hf : Filled files path) :
    Filled later path := by
  obtain ⟨_, content, _, hfind, hsize⟩ := hf
  obtain ⟨place, mode, hfound⟩ := find_of_read (h.symm.trans (read_of_find hfind))
  exact ⟨place, content, mode, hfound, hsize⟩

theorem keyAt_of_read {key : List UInt8} (h : files.read path = later.read path)
    (hk : KeyAt files path key) : KeyAt later path key := by
  obtain ⟨_, content, _, hfind, hkey⟩ := hk
  obtain ⟨place, mode, hfound⟩ := find_of_read (h.symm.trans (read_of_find hfind))
  exact ⟨place, content, mode, hfound, hkey⟩

theorem Provided.text_ne_empty (h : m.Provided files) : m.directory.text ≠ "" := by
  obtain ⟨place, hfind⟩ := h.directory
  have hcheck := (FileTree.of_find hfind).1
  intro hempty
  have hchars : m.directory.chars = [] := by rw [Path.chars, hempty]; rfl
  simp [FileTree.checkPath, hchars] at hcheck

/-- Where both public keys read the same, the keys that are ready are ready. -/
theorem ready_of_read {prints : Fingerprints}
    (hrsa : files.read m.rsaPublicKey = later.read m.rsaPublicKey)
    (hed : files.read m.ed25519PublicKey = later.read m.ed25519PublicKey)
    (h : m.fingerprints files = .ok (.ready prints)) :
    m.fingerprints later = .ok (.ready prints) := by
  obtain ⟨hp, rsa, ed25519, hrsaKey, hedKey, rfl⟩ := ready_iff.mp h
  refine ready_iff.mpr ⟨(provided_iff hp.text_ne_empty).mpr ?_, rsa, ed25519, ?_, ?_, rfl⟩
  · exact ⟨filled_of_read hrsa hp.rsa, filled_of_read hed hp.ed25519⟩
  · exact keyAt_of_read hrsa hrsaKey
  · exact keyAt_of_read hed hedKey

end reading

/-- Whatever the files are: the keys are not ready exactly if something is missing, and then the
first thing that is missing is told; they are an error exactly if nothing is missing and a file
holds no key, and then the first such file is told; otherwise the fingerprints are those of the
keys in the files. -/
theorem fingerprints_separate (m : Material) (files : FileTree) :
    (∀ path, m.fingerprints files = .ok (.notReady ⟨path⟩) ↔ m.FirstMissing files path) ∧
    ((∃ error, m.fingerprints files = .error error) ↔
      m.Provided files ∧ ¬ ((∃ key, KeyAt files m.rsaPublicKey key) ∧
        ∃ key, KeyAt files m.ed25519PublicKey key)) ∧
    (∀ error, m.fingerprints files = .error error →
      ((∀ key, ¬ KeyAt files m.rsaPublicKey key) → error.path = m.rsaPublicKey) ∧
      ((∃ key, KeyAt files m.rsaPublicKey key) → error.path = m.ed25519PublicKey) ∧
      ∀ path cause, error = .unreadable path cause →
        cause = .invalidText ∧ HoldsInvalid files path) ∧
    (∀ prints, m.fingerprints files = .ok (.ready prints) ↔
      m.Provided files ∧ ∃ rsa ed25519, KeyAt files m.rsaPublicKey rsa ∧
        KeyAt files m.ed25519PublicKey ed25519 ∧
        prints = ⟨fingerprintOf rsa, fingerprintOf ed25519⟩) ∧
    (¬ Filled files m.ed25519PublicKey →
      ∃ path, m.fingerprints files = .ok (.notReady ⟨path⟩)) ∧
    (m.Provided files → HoldsBlanks files m.rsaPublicKey ∨ HoldsBlanks files m.ed25519PublicKey →
      ∃ error, m.fingerprints files = .error error) ∧
    (m.directory.text ≠ "" →
      (m.Provided files ↔ Filled files m.rsaPublicKey ∧ Filled files m.ed25519PublicKey)) := by
  refine ⟨fun path => notReady_iff, error_iff, fun error => blamed_of_error,
    fun prints => ready_iff, ?_, ?_, provided_iff⟩
  · intro hempty
    rcases provided_or_missing m files with hp | ⟨path, hmissing⟩
    · exact absurd hp.ed25519 hempty
    · exact ⟨path, hmissing.fingerprints_eq⟩
  · intro hp hblanks
    refine error_iff.mpr ⟨hp, ?_⟩
    rintro ⟨⟨rsa, hrsa⟩, ed25519, hed⟩
    rcases hblanks with hb | hb
    · exact not_keyAt_of_blanks hb rsa hrsa
    · exact not_keyAt_of_blanks hb ed25519 hed

/-- Keys in the working directory, of which one is blank. -/
def blankKey : FileTree where
  nodes := .ofList
    [(["ssh_host_rsa_key.pub"], Node.file " \n".toUTF8 0o644),
      (["ssh_host_ed25519_key.pub"], Node.file "ssh-ed25519 Ag==\n".toUTF8 0o644)]
  current := []

theorem fingerprints_separate_blank :
    (Provided ⟨⟨"/"⟩⟩ blankKey ∧ HoldsBlanks blankKey (rsaPublicKey ⟨⟨"/"⟩⟩)) ∧
      ∃ error, fingerprints ⟨⟨"/"⟩⟩ blankKey = .error error ∧
        error.path = ⟨"/ssh_host_rsa_key.pub"⟩ := by
  have hblanks : HoldsBlanks blankKey (rsaPublicKey ⟨⟨"/"⟩⟩) :=
    ⟨["ssh_host_rsa_key.pub"], " \n".toUTF8, 0o644, " \n", rfl, rfl, by decide⟩
  have hprovided : Provided ⟨⟨"/"⟩⟩ blankKey := by
    refine ⟨⟨[], rfl⟩, ?_, ?_⟩
    · exact ⟨["ssh_host_rsa_key.pub"], " \n".toUTF8, 0o644, rfl, by decide⟩
    · exact ⟨["ssh_host_ed25519_key.pub"], "ssh-ed25519 Ag==\n".toUTF8, 0o644, rfl, by decide⟩
  obtain ⟨-, -, hblamed, -, -, hfails, -⟩ := fingerprints_separate ⟨⟨"/"⟩⟩ blankKey
  obtain ⟨error, herror⟩ := hfails hprovided (.inl hblanks)
  have hpath := (hblamed error herror).1 (not_keyAt_of_blanks hblanks)
  exact ⟨⟨hprovided, hblanks⟩, error, herror, hpath⟩

/-- The empty path is no directory, although a name after it is found in the working directory. -/
theorem fingerprints_of_empty_path :
    Filled blankKey (rsaPublicKey ⟨⟨""⟩⟩) ∧ Filled blankKey (ed25519PublicKey ⟨⟨""⟩⟩) ∧
      HoldsBlanks blankKey (rsaPublicKey ⟨⟨""⟩⟩) ∧
      (∀ key, ¬ KeyAt blankKey (rsaPublicKey ⟨⟨""⟩⟩) key) ∧
      ¬ (∃ error, fingerprints ⟨⟨""⟩⟩ blankKey = .error error) ∧
      fingerprints ⟨⟨""⟩⟩ blankKey = .ok (.notReady ⟨⟨""⟩⟩) := by
  have hresult : fingerprints ⟨⟨""⟩⟩ blankKey = .ok (.notReady ⟨⟨""⟩⟩) := rfl
  have hblanks : HoldsBlanks blankKey (rsaPublicKey ⟨⟨""⟩⟩) :=
    ⟨["ssh_host_rsa_key.pub"], " \n".toUTF8, 0o644, " \n", rfl, rfl, by decide⟩
  refine ⟨?_, ?_, hblanks, not_keyAt_of_blanks hblanks, ?_, hresult⟩
  · exact ⟨["ssh_host_rsa_key.pub"], " \n".toUTF8, 0o644, rfl, by decide⟩
  · exact ⟨["ssh_host_ed25519_key.pub"], "ssh-ed25519 Ag==\n".toUTF8, 0o644, rfl, by decide⟩
  · rw [hresult]
    rintro ⟨error, ⟨⟩⟩

end Material

end Key

end RelayKeeper
