import RelayKeeper.Proofs.KeyReadiness

/-! # Public key lines

The words of a text are what stands between its blanks. A public key line is its first three words,
however they are set apart, and a fingerprint depends on the first two alone. -/
namespace RelayKeeper

/-! ## Words -/

namespace Text

structure IsWord (word : List Char) : Prop where
  nonempty : word ≠ []
  solid : ∀ c ∈ word, isBlank c = false

def Parted (cs : List Char) : Prop := ∀ c ∈ cs.head?, isBlank c = true

instance : DecidablePred Parted
  | [] => .isTrue nofun
  | c :: _ => decidable_of_iff (isBlank c = true) (by simp [Parted])

/-- The words stand in the text in order, each parted from the next, and there is nothing else but
blanks. -/
inductive Spaced : List Char → List (List Char) → Prop where
  | nil {cs} : Blanks cs → Spaced cs []
  | cons {before word rest words} : Blanks before → IsWord word → Parted rest →
      Spaced rest words → Spaced (before ++ word ++ rest) (word :: words)

def HasWords (text : String) (words : List String) : Prop :=
  Spaced text.toList (words.map String.toList)

theorem Blanks.cons {c : Char} {cs : List Char} (hc : isBlank c = true) (h : Blanks cs) :
    Blanks (c :: cs) := by
  intro d hd
  rcases List.mem_cons.mp hd with rfl | hd
  · exact hc
  · exact h d hd

theorem Blanks.parted_append {gap rest : List Char} (h : Blanks gap) (hne : gap ≠ []) :
    Parted (gap ++ rest) := by
  cases gap with
  | nil => exact absurd rfl hne
  | cons c gap =>
    intro d hd
    obtain rfl := Option.some.inj hd
    exact h c List.mem_cons_self

theorem Blanks.parted {cs : List Char} (h : Blanks cs) : Parted cs :=
  fun c hc => h c (List.mem_of_head? hc)

theorem wordsOf_blanks_append {before : List Char} (h : Blanks before) (cs : List Char) :
    wordsOf (before ++ cs) = wordsOf cs := by
  induction before with
  | nil => rfl
  | cons c before ih =>
    have hc : isBlank c = true := h c List.mem_cons_self
    rw [List.cons_append, wordsOf.eq_def]
    simp only [hc, if_true]
    exact ih fun d hd => h d (List.mem_cons_of_mem c hd)

theorem wordsOf_word_append {word rest : List Char} (h : IsWord word) (hrest : Parted rest) :
    wordsOf (word ++ rest) = word :: wordsOf rest := by
  obtain ⟨hne, hsolid⟩ := h
  induction word with
  | nil => exact absurd rfl hne
  | cons c word ih =>
    have hc : isBlank c = false := hsolid c List.mem_cons_self
    have hword : ∀ d ∈ word, isBlank d = false := fun d hd => hsolid d (List.mem_cons_of_mem c hd)
    cases word with
    | nil =>
      cases rest with
      | nil => simp [wordsOf, hc]
      | cons d rest =>
        have hd : isBlank d = true := hrest d rfl
        simp [wordsOf, hc, hd]
    | cons d word =>
      have hd : isBlank d = false := hword d List.mem_cons_self
      have hmore := ih (List.cons_ne_nil d word) hword
      rw [List.cons_append] at hmore
      rw [List.cons_append, List.cons_append, wordsOf]
      simp [hc, hd, hmore]

theorem Spaced.wordsOf_eq {cs : List Char} {words : List (List Char)} (h : Spaced cs words) :
    wordsOf cs = words := by
  induction h with
  | nil hblanks => exact wordsOf_of_blanks hblanks
  | cons hbefore hword hparted _ ih =>
    rw [List.append_assoc, wordsOf_blanks_append hbefore, wordsOf_word_append hword hparted, ih]

theorem Spaced.blanks {cs : List Char} (h : Spaced cs []) : Blanks cs := by
  cases h with
  | nil hblanks => exact hblanks

theorem Spaced.isWord {cs word : List Char} {words : List (List Char)} (h : Spaced cs words)
    (hmem : word ∈ words) : IsWord word := by
  induction h with
  | nil _ => cases hmem
  | cons _ hword _ _ ih =>
    rcases List.mem_cons.mp hmem with rfl | hmem
    · exact hword
    · exact ih hmem

theorem Spaced.blank_cons {c : Char} {cs : List Char} {words : List (List Char)}
    (hc : isBlank c = true) (h : Spaced cs words) : Spaced (c :: cs) words := by
  cases h with
  | nil hblanks => exact .nil (hblanks.cons hc)
  | cons hbefore hword hparted hrest => exact .cons (hbefore.cons hc) hword hparted hrest

theorem Spaced.word {word rest : List Char} {words : List (List Char)} (hword : IsWord word)
    (hparted : Parted rest) (h : Spaced rest words) : Spaced (word ++ rest) (word :: words) :=
  .cons blanks_nil hword hparted h

/-- A character in front of a word belongs to it. -/
theorem Spaced.solid_cons {c d : Char} {cs first : List Char} {others : List (List Char)}
    (hc : isBlank c = false) (hd : isBlank d = false) (h : Spaced (d :: cs) (first :: others)) :
    Spaced (c :: d :: cs) ((c :: first) :: others) := by
  generalize hcs : d :: cs = text at h
  cases h with
  | @cons before _ rest _ hbefore hword hparted hrest =>
    cases before with
    | nil =>
      refine .word ⟨List.cons_ne_nil c first, fun x hx => ?_⟩ hparted hrest
      rcases List.mem_cons.mp hx with rfl | hx
      · exact hc
      · exact hword.solid x hx
    | cons e before =>
      obtain ⟨rfl, -⟩ := List.cons.inj hcs
      rw [hbefore d List.mem_cons_self] at hd
      cases hd

theorem spaced_wordsOf (cs : List Char) : Spaced cs (wordsOf cs) := by
  fun_induction wordsOf cs with
  | case1 => exact .nil blanks_nil
  | case2 c cs hc ih => exact ih.blank_cons hc
  | case3 c hc =>
    exact .word ⟨List.cons_ne_nil c [], by simpa using hc⟩ blanks_nil.parted (.nil blanks_nil)
  | case4 c hc d rest hd ih =>
    refine .word ⟨List.cons_ne_nil c [], by simpa using hc⟩ (fun e he => ?_) ih
    obtain rfl := Option.some.inj he
    exact hd
  | case5 c hc d rest hd hnone ih =>
    -- a text that starts with no blank has a word
    rw [hnone] at ih
    exact absurd (ih.blanks d List.mem_cons_self) hd
  | case6 c hc d rest hd first others hwords ih =>
    rw [hwords] at ih ⊢
    exact ih.solid_cons (by simpa using hc) (by simpa using hd)

theorem words_eq_iff {text : String} {ws : List String} : words text = ws ↔ HasWords text ws := by
  constructor
  · rintro rfl
    have h := spaced_wordsOf text.toList
    simpa [HasWords, words, Function.comp_def] using h
  · intro h
    rw [words, h.wordsOf_eq]
    simp [Function.comp_def]

theorem HasWords.isWord {text word : String} {ws : List String} (h : HasWords text ws)
    (hmem : word ∈ ws) : IsWord word.toList :=
  Spaced.isWord h (List.mem_map_of_mem hmem)

end Text

namespace Key

open Text (Blanks HasWords IsWord Parted)

/-! ## Names of algorithms -/

/-- A name and a domain with an `@` between them: at most sixty-four ASCII characters. -/
def IsDomainName (name : String) : Prop :=
  ∃ owner domain, name.toList = owner ++ '@' :: domain ∧ owner ≠ [] ∧ domain ≠ [] ∧
    '@' ∉ owner ∧ '@' ∉ domain ∧ (∀ c ∈ name.toList, c.toNat < 0x80) ∧ name.toList.length ≤ 64

/-- The algorithm that a word names. The names of the standard come first. -/
inductive Denotes : String → Algorithm → Prop where
  | standard {algorithm} : algorithm ∈ Algorithm.standard → Denotes algorithm.name algorithm
  | other {name} : (∀ algorithm ∈ Algorithm.standard, algorithm.name ≠ name) →
      IsDomainName name → Denotes name (.other name)

theorem Denotes.name_eq {name : String} {algorithm : Algorithm} (h : Denotes name algorithm) :
    algorithm.name = name := by
  cases h <;> rfl

theorem isDomainName_iff {name : String} :
    Algorithm.isDomainName name.toList = true ↔ IsDomainName name := by
  simp only [Algorithm.isDomainName, Bool.and_eq_true, List.all_eq_true, decide_eq_true_eq,
    beq_iff_eq, bne_iff_ne, IsDomainName]
  constructor
  · rintro ⟨⟨⟨⟨hascii, hlength⟩, hcount⟩, hhead⟩, hlast⟩
    have hmem : '@' ∈ name.toList := List.count_pos_iff.mp (by omega)
    obtain ⟨owner, domain, hsplit⟩ := List.append_of_mem hmem
    rw [hsplit, List.count_append, List.count_cons_self] at hcount
    refine ⟨owner, domain, hsplit, ?_, ?_, ?_, ?_, hascii, hlength⟩
    · rintro rfl
      exact hhead (by rw [hsplit]; rfl)
    · rintro rfl
      exact hlast (by rw [hsplit, List.getLast?_concat])
    · exact List.count_eq_zero.mp (by omega)
    · exact List.count_eq_zero.mp (by omega)
  · rintro ⟨owner, domain, hsplit, howner, hdomain, hnone, hnone', hascii, hlength⟩
    have hcount : name.toList.count '@' = 1 := by
      rw [hsplit, List.count_append, List.count_cons_self, List.count_eq_zero.mpr hnone,
        List.count_eq_zero.mpr hnone']
    refine ⟨⟨⟨⟨hascii, hlength⟩, hcount⟩, ?_⟩, ?_⟩
    · rw [hsplit, List.head?_append_of_ne_nil _ howner]
      exact fun h => hnone (List.mem_of_head? h)
    · rw [hsplit, List.getLast?_append_of_ne_nil _ (List.cons_ne_nil _ _),
        List.getLast?_cons_of_ne_nil hdomain]
      exact fun h => hnone' (List.mem_of_getLast? h)

/-- No two algorithms of the standard have the same name. -/
theorem standard_name_injective : ∀ a ∈ Algorithm.standard, ∀ b ∈ Algorithm.standard,
    a.name = b.name → a = b := by
  decide

theorem ofName_eq_some_iff {name : String} {algorithm : Algorithm} :
    Algorithm.ofName? name = some algorithm ↔ Denotes name algorithm := by
  unfold Algorithm.ofName?
  cases hfound : Algorithm.standard.find? (·.name == name) with
  | some found =>
    have hname : found.name = name := by simpa using List.find?_some hfound
    have hmem := List.mem_of_find?_eq_some hfound
    subst hname
    constructor
    · intro h
      obtain rfl := Option.some.inj h
      exact .standard hmem
    · intro h
      generalize heq : found.name = name at h
      cases h with
      | standard hother => exact congrArg some (standard_name_injective _ hmem _ hother heq)
      | other hnone _ => exact absurd heq (hnone _ hmem)
  | none =>
    have hnone : ∀ a ∈ Algorithm.standard, a.name ≠ name := by
      simpa using List.find?_eq_none.mp hfound
    constructor
    · intro h
      by_cases hdomain : Algorithm.isDomainName name.toList = true
      · rw [if_pos hdomain] at h
        obtain rfl := Option.some.inj h
        exact .other hnone (isDomainName_iff.mp hdomain)
      · rw [if_neg hdomain] at h
        cases h
    · intro h
      cases h with
      | standard hmem => exact absurd rfl (hnone _ hmem)
      | other _ hdomain => rw [if_pos (isDomainName_iff.mpr hdomain)]

theorem Denotes.unique {name : String} {algorithm other : Algorithm} (h : Denotes name algorithm)
    (k : Denotes name other) : algorithm = other :=
  Option.some.inj ((ofName_eq_some_iff.mpr h).symm.trans (ofName_eq_some_iff.mpr k))

/-! ## Lines -/

/-- The text shows the line: its parts in order with blanks between them and around them. Behind a
comment there may be anything that is parted from it. -/
inductive Shows : PublicKey → List Char → Prop where
  | bare {algorithm blob before gap after} : Blanks before → Blanks gap → gap ≠ [] →
      Blanks after → Shows ⟨algorithm, blob, none⟩
        (before ++ algorithm.name.toList ++ (gap ++ blob.toList ++ after))
  | commented {algorithm blob comment before gap space more} : Blanks before → Blanks gap →
      gap ≠ [] → Blanks space → space ≠ [] → Parted more →
      Shows ⟨algorithm, blob, some comment⟩
        (before ++ algorithm.name.toList ++ (gap ++ blob.toList ++
          (space ++ comment.toList ++ more)))

structure ReadsLine (path : Path) (words : List String) (result : Except KeyError PublicKey) :
    Prop where
  empty : result = .error (.noAlgorithm path) ↔ words = []
  blobless : result = .error (.noBlob path) ↔ ∃ word, words = [word]
  unknown : ∀ name, result = .error (.unknownAlgorithm path name) ↔
    (∃ blob rest, words = name :: blob :: rest) ∧ ∀ algorithm, ¬ Denotes name algorithm
  line : ∀ line, result = .ok line ↔ ∃ name rest, words = name :: line.blob :: rest ∧
    Denotes name line.algorithm ∧ line.comment = rest.head?
  /-- There is no other error. -/
  error : ∀ error, result = .error error →
    error = .noAlgorithm path ∨ error = .noBlob path ∨ ∃ name, error = .unknownAlgorithm path name
  /-- The words of the line are words of the file. -/
  solid : ∀ line, result = .ok line → words.head? = some line.algorithm.name ∧
    IsWord line.algorithm.name.toList ∧ IsWord line.blob.toList ∧
    ∀ comment ∈ line.comment, IsWord comment.toList

section line

variable {content text : String} {path : Path} {ws : List String} {line : PublicKey}

inductive Reads (path : Path) : List String → Except KeyError PublicKey → Prop where
  | empty : Reads path [] (.error (.noAlgorithm path))
  | blobless {word} : Reads path [word] (.error (.noBlob path))
  | unknown {name blob rest} : (∀ algorithm, ¬ Denotes name algorithm) →
      Reads path (name :: blob :: rest) (.error (.unknownAlgorithm path name))
  | line {name algorithm blob rest} : Denotes name algorithm →
      Reads path (name :: blob :: rest) (.ok ⟨algorithm, blob, rest.head?⟩)

theorem reads_parse (h : HasWords content ws) (path : Path) :
    Reads path ws ((PublicKey.parse content).mapError (.ofLine path)) := by
  have hwords : Text.words content = ws := Text.words_eq_iff.mpr h
  unfold PublicKey.parse
  rw [hwords]
  match ws with
  | [] => exact .empty
  | [word] => exact .blobless
  | name :: blob :: rest =>
    dsimp only
    cases halgorithm : Algorithm.ofName? name with
    | none =>
      refine .unknown fun algorithm hdenotes => ?_
      rw [ofName_eq_some_iff.mpr hdenotes] at halgorithm
      cases halgorithm
    | some algorithm => exact .line (ofName_eq_some_iff.mp halgorithm)

theorem Reads.readsLine {result : Except KeyError PublicKey} (h : Reads path ws result)
    (hwords : HasWords content ws) : ReadsLine path ws result := by
  cases h with
  | empty => constructor <;> simp
  | blobless => constructor <;> simp
  | unknown hnone => exact {
      empty := by simp
      blobless := by simp
      unknown := fun name => by
        simp only [Except.error.injEq, KeyError.unknownAlgorithm.injEq, true_and, List.cons.injEq]
        constructor
        · rintro rfl
          exact ⟨⟨_, _, rfl, rfl, rfl⟩, hnone⟩
        · rintro ⟨⟨_, _, rfl, -⟩, -⟩
          rfl
      line := fun line => by
        constructor
        · nofun
        · rintro ⟨name, rest, hsame, hdenotes, -⟩
          obtain ⟨rfl, -⟩ := List.cons.inj hsame
          exact absurd hdenotes (hnone _)
      error := fun error herror => .inr (.inr ⟨_, (Except.error.inj herror).symm⟩)
      solid := nofun }
  | @line name algorithm blob rest hdenotes => exact {
      empty := by simp
      blobless := by simp
      unknown := fun other => by
        constructor
        · nofun
        · rintro ⟨⟨_, _, hsame⟩, hnone⟩
          obtain ⟨rfl, -⟩ := List.cons.inj hsame
          exact absurd hdenotes (hnone _)
      line := fun line => by
        constructor
        · rintro ⟨⟩
          exact ⟨name, rest, rfl, hdenotes, rfl⟩
        · rintro ⟨other, more, hsame, hother, hcomment⟩
          injection hsame with hname hsame
          injection hsame with hblob hmore
          subst hname hblob hmore
          rw [hdenotes.unique hother, ← hcomment]
      error := nofun
      solid := by
        rintro _ ⟨⟩
        rw [hdenotes.name_eq]
        refine ⟨rfl, hwords.isWord (by simp), hwords.isWord (by simp), fun comment hmem => ?_⟩
        have hcomment : comment ∈ rest := List.mem_of_head? hmem
        exact hwords.isWord (by simp [hcomment]) }

/-! ## Other texts -/

theorem Shows.hasWords (h : Shows line text.toList) (hname : IsWord line.algorithm.name.toList)
    (hblob : IsWord line.blob.toList) (hcomment : ∀ comment ∈ line.comment, IsWord comment.toList) :
    ∃ rest, HasWords text (line.algorithm.name :: line.blob :: rest) ∧
      rest.head? = line.comment := by
  unfold HasWords
  generalize text.toList = cs at h
  cases h with
  | bare hbefore hgap hne hafter =>
    refine ⟨[], ?_, rfl⟩
    refine .cons hbefore hname ?_ (.cons hgap hblob hafter.parted (.nil hafter))
    rw [List.append_assoc]
    exact hgap.parted_append hne
  | @commented algorithm blob comment before gap space more hbefore hgap hne hspace hne' hmore =>
    refine ⟨comment :: Text.words (String.ofList more), ?_, rfl⟩
    have hrest : Text.Spaced more ((Text.words (String.ofList more)).map String.toList) := by
      have hspaced : HasWords (String.ofList more) _ := Text.words_eq_iff.mp rfl
      rwa [HasWords, String.toList_ofList] at hspaced
    have hlast := Text.Spaced.cons hspace (hcomment comment rfl) hmore hrest
    refine .cons hbefore hname ?_ (.cons hgap hblob ?_ hlast)
    · rw [List.append_assoc]
      exact hgap.parted_append hne
    · rw [List.append_assoc]
      exact hspace.parted_append hne'

/-- A line is read from every text that shows it. -/
theorem parse_of_shows (h : PublicKey.parse content = .ok line) (hshows : Shows line text.toList) :
    PublicKey.parse text = .ok line := by
  obtain ⟨name, rest, hwords, halgorithm, hcomment⟩ := parse_eq_ok_iff.mp h
  have hname : line.algorithm.name = name := (ofName_eq_some_iff.mp halgorithm).name_eq
  have hspaced : HasWords content (name :: line.blob :: rest) := Text.words_eq_iff.mp hwords
  obtain ⟨more, htext, hmore⟩ := hshows.hasWords (hspaced.isWord (by simp [hname]))
    (hspaced.isWord (by simp)) fun comment hmem => by
      have hrest : comment ∈ rest := List.mem_of_head? (hcomment ▸ hmem)
      exact hspaced.isWord (by simp [hrest])
  refine parse_eq_ok_iff.mpr ⟨name, more, ?_, halgorithm, hmore.symm⟩
  rw [← hname]
  exact Text.words_eq_iff.mpr htext

/-- Whether there is a key, and which text it is, depends on two words. -/
theorem Reads.blob_congr {result other : Except KeyError PublicKey} {vs : List String}
    (h : Reads path ws result) (k : Reads path vs other) (hsame : ws.take 2 = vs.take 2) :
    result.map (·.blob) = other.map (·.blob) := by
  cases h with
  | empty =>
    cases k with
    | empty => rfl
    | blobless | unknown _ | line _ => cases hsame
  | blobless =>
    cases k with
    | blobless => rfl
    | empty | unknown _ | line _ => cases hsame
  | unknown hnone =>
    cases k with
    | unknown _ =>
      cases hsame
      rfl
    | line hdenotes =>
      cases hsame
      exact absurd hdenotes (hnone _)
    | empty | blobless => cases hsame
  | line hdenotes =>
    cases k with
    | line _ =>
      cases hsame
      rfl
    | unknown hnone =>
      cases hsame
      exact absurd hdenotes (hnone _)
    | empty | blobless => cases hsame

theorem fingerprintFile_of_readText {files : FileTree} (h : files.readText path = .ok content) :
    fingerprintFile files path =
      (((PublicKey.parse content).mapError (.ofLine path)).map (·.blob)).bind fun blob =>
        (fingerprint blob).mapError (.undecodable path) := by
  unfold fingerprintFile
  simp only [h, bind, Except.bind, Except.mapError]
  cases PublicKey.parse content <;> rfl

theorem fingerprintFile_congr {files other : FileTree} {vs : List String}
    (hfile : files.readText path = .ok content) (hother : other.readText path = .ok text)
    (hws : HasWords content ws) (hvs : HasWords text vs) (hsame : ws.take 2 = vs.take 2) :
    fingerprintFile files path = fingerprintFile other path := by
  rw [fingerprintFile_of_readText hfile, fingerprintFile_of_readText hother,
    (reads_parse hws path).blob_congr (reads_parse hvs path) hsame]

end line

/-- Whatever the text is, it is read as its first three words say, an error tells what is missing
first, every text that shows a line is read as that line, and no word after the second changes the
fingerprint of a file. -/
theorem parse_reads_words (content : String) (path : Path) :
    ∃ ws, HasWords content ws ∧ (∀ vs, HasWords content vs → vs = ws) ∧
      ReadsLine path ws ((PublicKey.parse content).mapError (.ofLine path)) ∧
      (KeyError.noAlgorithm path).message =
        s!"malformed public key in {path.text}: file is empty" ∧
      (KeyError.noBlob path).message =
        s!"malformed public key in {path.text}: missing key blob" ∧
      (∀ line text, PublicKey.parse content = .ok line → Shows line text.toList →
        PublicKey.parse text = .ok line) ∧
      ∀ files other text vs, files.readText path = .ok content → other.readText path = .ok text →
        HasWords text vs → ws.take 2 = vs.take 2 →
          fingerprintFile files path = fingerprintFile other path := by
  have hwords : HasWords content (Text.words content) := Text.words_eq_iff.mp rfl
  refine ⟨_, hwords, fun vs hvs => (Text.words_eq_iff.mpr hvs).symm,
    (reads_parse hwords path).readsLine hwords, rfl, rfl, ?_, ?_⟩
  · intro line text hparse hshows
    exact parse_of_shows hparse hshows
  · intro files other text vs hfile hother hvs hsame
    exact fingerprintFile_congr hfile hother hwords hvs hsame

/-- A line with a comment is read from a text with other blanks and more words. -/
theorem parse_reads_words_spaced :
    PublicKey.parse "\u2003ssh-ed25519\n\tAg==\u00a0me more" =
        .ok ⟨.ed25519, "Ag==", some "me"⟩ ∧
      Shows ⟨.ed25519, "Ag==", some "me"⟩ "ssh-ed25519 Ag==\r\nme\tand you\n".toList ∧
      PublicKey.parse "ssh-ed25519 Ag==\r\nme\tand you\n" =
        .ok ⟨.ed25519, "Ag==", some "me"⟩ := by
  obtain ⟨ws, -, -, -, -, -, hshown, -⟩ :=
    parse_reads_words "\u2003ssh-ed25519\n\tAg==\u00a0me more" ⟨"key.pub"⟩
  have hparse : PublicKey.parse "\u2003ssh-ed25519\n\tAg==\u00a0me more" =
      .ok ⟨.ed25519, "Ag==", some "me"⟩ := by decide +kernel
  have hshows : Shows ⟨.ed25519, "Ag==", some "me"⟩
      "ssh-ed25519 Ag==\r\nme\tand you\n".toList :=
    @Shows.commented .ed25519 "Ag==" "me" [] [' '] ['\r', '\n'] "\tand you\n".toList
      (by decide) (by decide) (by decide) (by decide) (by decide) (by decide)
  exact ⟨hparse, hshows, hshown _ _ hparse hshows⟩

end Key

end RelayKeeper
