import RelayKeeper.Machine.Ground
import RelayKeeper.Proofs.HookPairs
import RelayKeeper.Proofs.TreePairs

/-! # Two machines

A relation of machines is steady if each part that calls are made of is done in the same way by
related machines, which are related afterwards; so are the calls then. Twins are machines that differ
in files at hidden places and in nothing else: they answer every call that is about no file there. -/
namespace RelayKeeper

namespace FileTree

variable {hidden : Place → Prop} {t u : FileTree} {p : Path}

theorem current_write {content : ByteArray} {t' : FileTree} (h : t.write p content = .ok t') :
    t'.current = t.current := by
  obtain ⟨_, _, _, -, -, rfl⟩ := of_write h
  rfl

theorem current_setMode {mode : Nat} {t' : FileTree} (h : t.setMode p mode = .ok t') :
    t'.current = t.current := by
  unfold setMode at h
  rcases hf : t.find p with fault | ⟨place, content, old⟩
  all_goals
    rw [hf] at h
    cases h
  · rfl
  · rfl

theorem current_provide (t : FileTree) (p : Path) (content : Option ByteArray) :
    (t.provide p content).current = t.current := by
  have hwrite : ∀ (t : FileTree) (content : ByteArray),
      ((t.write p content).toOption.getD t).current = t.current := by
    intro t content
    cases hw : t.write p content with
    | error fault => rfl
    | ok t' => exact current_write hw
  cases content with
  | none => exact (grows_makeChain t _).current
  | some content =>
    unfold provide
    dsimp only
    cases p.parent? with
    | none => exact hwrite t content
    | some parent => exact (hwrite _ content).trans (grows_makeChain t _).current

theorem place_of_findParent {place : Place} {name : String}
    (h : t.findParent p = .ok (some (place, name))) : place ++ [name] = placeOf t.current p := by
  obtain ⟨-, henter, steps, hs, hw⟩ := of_findParent h
  obtain rfl := placeOf_walk hw
  rw [placeOf, hs, List.foldl_append, List.foldl_cons, List.foldl_nil]
  exact stepTo_of_enter henter

/-- Where nothing is missing only the directory itself is made. -/
theorem makeChain_of_found {above : List Path} (hc : ¬ p.chars.isEmpty = true)
    (h : t.makeDirectory p ≠ .error .notFound) :
    (t.makeChain (p :: above)).2 = (t.makeDirectory p).toOption.getD t := by
  rw [makeChain, if_neg hc]
  cases hm : t.makeDirectory p with
  | ok made => rfl
  | error fault =>
    cases fault with
    | notFound => exact absurd hm h
    | _ => rfl

namespace AgreeBut

theorem setMode_eq (h : AgreeBut hidden t u) (hp : PathAvoids hidden t.current p) (mode : Nat) :
    (∃ fault, t.setMode p mode = .error fault ∧ u.setMode p mode = .error fault) ∨
      ∃ t' u', t.setMode p mode = .ok t' ∧ u.setMode p mode = .ok u' ∧ AgreeBut hidden t' u' := by
  unfold setMode
  rw [h.find_eq hp]
  rcases hf : u.find p with fault | ⟨place, content, old⟩
  · exact .inl ⟨fault, rfl, rfl⟩
  · refine .inr ⟨_, _, rfl, rfl, h.put (fun hroot => ?_) _⟩
    -- A file does not stand at the root.
    obtain ⟨-, -, hnode, -⟩ := of_find hf
    rw [hroot, node?_nil] at hnode
    cases hnode
  · exact .inr ⟨_, _, rfl, rfl, h⟩

/-- What is provided where it is not hidden is provided in both trees. -/
theorem provide (h : AgreeBut hidden t u) (hp : PathAvoids hidden t.current p)
    (content : Option ByteArray) :
    AgreeBut hidden (t.provide p content) (u.provide p content) := by
  have hwrite : ∀ {t u : FileTree}, AgreeBut hidden t u → PathAvoids hidden t.current p →
      ∀ content, AgreeBut hidden ((t.write p content).toOption.getD t)
        ((u.write p content).toOption.getD u) := by
    intro t u h hp content
    rcases h.write_eq hp content with ⟨fault, ht, hu⟩ | ⟨t', u', ht, hu, hafter⟩
    · rw [ht, hu]
      exact h
    · rw [ht, hu]
      exact hafter
  cases content with
  | none => exact (h.makeDirectories_eq hp).2
  | some content =>
    unfold FileTree.provide
    dsimp only
    cases hparent : p.parent? with
    | none => exact hwrite h hp content
    | some parent =>
      have hmade := (h.makeDirectories_eq
        (pathAvoids_of_mem_parents hp (List.mem_of_head? hparent))).2
      have hcurrent : (t.makeDirectories parent).2.current = t.current :=
        (grows_makeChain t _).current
      exact hwrite hmade (hcurrent ▸ hp) content

/-! ### Where it is hidden -/

structure Enters (hidden : Place → Prop) (current : Place) (p : Path) : Prop where
  front : Avoids hidden (startOf current p) (stepsOf p).dropLast
  place : hidden (placeOf current p)

theorem write_hidden (hp : hidden (placeOf t.current p)) (content : ByteArray) :
    AgreeBut hidden t ((t.write p content).toOption.getD t) := by
  cases hw : t.write p content with
  | error fault => exact .refl t
  | ok t' =>
    obtain ⟨place, name, mode, hf, -, rfl⟩ := of_write hw
    exact put_hidden t (by simp) (place_of_findParent hf ▸ hp) _

/-- A hidden directory is made, or not, and nothing else changes; what leads there is missing in both
trees or in none. -/
theorem makeDirectory_hidden (h : AgreeBut hidden t u) (hp : Enters hidden t.current p) :
    (t.makeDirectory p = .error .notFound ↔ u.makeDirectory p = .error .notFound) ∧
      AgreeBut hidden ((t.makeDirectory p).toOption.getD t)
        ((u.makeDirectory p).toOption.getD u) := by
  have hfind := h.findParent_eq_of_front hp.front
  unfold makeDirectory
  rw [← hfind]
  cases hf : t.findParent p with
  | error fault => exact ⟨Iff.rfl, h⟩
  | ok parent =>
    cases parent with
    | none => exact ⟨Iff.rfl, h⟩
    | some found =>
      obtain ⟨place, name⟩ := found
      have hhidden : hidden (place ++ [name]) := place_of_findParent hf ▸ hp.place
      simp only [bind, Except.bind]
      have hone : ∀ t : FileTree, ∃ r : Except Fault FileTree,
          (if (t.node? (place ++ [name])).isSome then Except.error .alreadyExists
            else .ok (t.put (place ++ [name]) .directory)) = r ∧
          r ≠ .error .notFound ∧ AgreeBut hidden t (r.toOption.getD t) := by
        intro t
        by_cases hs : (t.node? (place ++ [name])).isSome = true
        · exact ⟨_, if_pos hs, nofun, .refl t⟩
        · exact ⟨_, if_neg hs, nofun, put_hidden t (by simp) hhidden _⟩
      obtain ⟨r, hr, hfound, ht⟩ := hone t
      obtain ⟨r', hr', hfound', hu⟩ := hone u
      rw [hr, hr']
      exact ⟨iff_of_false hfound hfound', (ht.symm.trans h).trans hu⟩

/-- The directories that a hidden one is in are made in both trees. -/
theorem makeDirectories_hidden (h : AgreeBut hidden t u) (hp : Enters hidden t.current p)
    (hparents : ∀ q ∈ p.parents, PathAvoids hidden t.current q) :
    AgreeBut hidden (t.makeDirectories p).2 (u.makeDirectories p).2 := by
  obtain ⟨hmissing, hmade⟩ := h.makeDirectory_hidden hp
  have hchain := h.makeChain_eq hparents
  have hcurrent := (grows_makeChain t p.parents).current
  unfold makeDirectories
  by_cases hc : p.chars.isEmpty = true
  · rw [makeChain, makeChain, if_pos hc, if_pos hc]
    exact h
  by_cases ht : t.makeDirectory p = .error .notFound
  · -- What leads there is made first, in both trees.
    have hu := hmissing.mp ht
    obtain ⟨r, t', u', htc, huc, hafter⟩ := hchain.parts
    rw [htc] at hcurrent
    rw [makeChain, makeChain, if_neg hc, if_neg hc, ht, hu, htc, huc]
    cases r with
    | error fault => exact hafter
    | ok _ =>
      have hagain := (hafter.makeDirectory_hidden (hcurrent ▸ hp)).2
      dsimp only
      cases hmt : t'.makeDirectory p <;> cases hmu : u'.makeDirectory p <;>
        (rw [hmt, hmu] at hagain; exact hagain)
  · rw [makeChain_of_found hc ht, makeChain_of_found hc (mt hmissing.mpr ht)]
    exact hmade

/-- What is provided in a hidden directory does not make the trees differ where it is not hidden. -/
theorem provide_hidden {q : Path} (h : AgreeBut hidden t u) (hparent : p.parent? = some q)
    (hq : Enters hidden t.current q) (hparents : ∀ r ∈ q.parents, PathAvoids hidden t.current r)
    (hp : hidden (placeOf t.current p)) (content : ByteArray) :
    AgreeBut hidden (t.provide p (some content)) (u.provide p (some content)) := by
  have hmade := h.makeDirectories_hidden hq hparents
  have hcurrent : (t.makeDirectories q).2.current = t.current := (grows_makeChain t _).current
  unfold FileTree.provide
  simp only [hparent]
  rw [← hcurrent] at hp
  have ht := write_hidden hp content
  rw [hmade.current] at hp
  have hu := write_hidden hp content
  exact (ht.symm.trans hmade).trans hu

end AgreeBut

end FileTree

namespace Machine

open FileTree (AgreeBut PathAvoids)
open FileTree.AgreeBut (SameOutcome)
open Host (CommandError CommandOutput PackageError)

variable {ε δ α β : Type} {R : Machine → Machine → Prop} {reach : Path → Prop}
  {hidden : Place → Prop} {current : Place} {m n : Machine} {path : Path}

/-! ## Work on related machines -/

namespace Work

theorem run_bind (x : Work ε α) (f : α → Work ε β) (m : Machine) :
    (x >>= f) m = match x m with
      | (.ok a, t) => f a t
      | (.error error, t) => (.error error, t) := by
  change (match x m with | (a, t) => ExceptT.bindCont f a t) = _
  rcases x m with ⟨_ | _, t⟩ <;> rfl

theorem run_adapt (x : Work δ α) (f : δ → ε) (m : Machine) :
    (x.adapt f : Work ε α) m = ((x m).1.mapError f, (x m).2) := rfl

/-- Related machines do the work in the same way, and are related afterwards. -/
def Respects (R : Machine → Machine → Prop) (x : Work ε α) : Prop :=
  ∀ m n, R m n → (x m).1 = (x n).1 ∧ R (x m).2 (x n).2

namespace Respects

variable {x : Work ε α} {f : α → Work ε β}

theorem of_reply (reply : Except ε α) :
    Respects R (ExceptT.mk (Pure.pure reply) : Work ε α) :=
  fun _ _ h => ⟨rfl, h⟩

theorem pure (a : α) : Respects R (Pure.pure a : Work ε α) :=
  of_reply (.ok a)

theorem throw (error : ε) : Respects R (MonadExcept.throw error : Work ε α) :=
  of_reply (.error error)

theorem bind (hx : Respects R x) (hf : ∀ a, Respects R (f a)) : Respects R (x >>= f) := by
  intro m n h
  obtain ⟨hreply, hafter⟩ := hx m n h
  rw [run_bind, run_bind]
  rcases hm : x m with ⟨r, m'⟩
  rcases hn : x n with ⟨r', n'⟩
  rw [hm, hn] at hreply hafter
  obtain rfl : r = r' := hreply
  cases r with
  | error error => exact ⟨rfl, hafter⟩
  | ok a => exact hf a m' n' hafter

theorem adapt {y : Work δ α} (hy : Respects R y) (g : δ → ε) :
    Respects R (y.adapt g : Work ε α) := by
  intro m n h
  obtain ⟨hreply, hafter⟩ := hy m n h
  rw [run_adapt, run_adapt, hreply]
  exact ⟨rfl, hafter⟩

theorem ite {c : Prop} [Decidable c] {y : Work ε α} (hx : Respects R x) (hy : Respects R y) :
    Respects R (if c then x else y) := by
  by_cases hc : c
  · rw [if_pos hc]
    exact hx
  · rw [if_neg hc]
    exact hy

end Respects

end Work

/-! ## Calls on related machines -/

/-- Related machines log alike, start the same programs and do the same with the files in reach. -/
structure Steady (R : Machine → Machine → Prop) (reach : Path → Prop) : Prop where
  log : ∀ (m n : Machine) (f : List Log.Entry → List Log.Entry), R m n →
    R { m with log := f m.log } { n with log := f n.log }
  start : ∀ program arguments quiet, (program.toList.contains '/' = true → reach ⟨program⟩) →
    Work.Respects R (start program arguments quiet)
  makeDirectories : ∀ path, reach path → Work.Respects R (onFiles (·.makeDirectories path))
  writeFile : ∀ path contents mode, reach path →
    Work.Respects R (onFiles (writeFile path contents mode))

namespace Steady

variable {program : String} {arguments : List String} {quiet : Bool} (h : Steady R reach)

include h

theorem note (level : Log.Level) (component message : String) :
    Work.Respects R (Machine.note level component message : Work ε Unit) := by
  intro m n hmn
  have hnoted := h.log m n (· ++ [⟨level, component, message, none⟩]) hmn
  exact ⟨rfl, hnoted⟩

theorem run (hprogram : program.toList.contains '/' = true → reach ⟨program⟩) :
    Work.Respects R (run program arguments quiet) := by
  refine (h.note _ _ _).bind fun _ => ?_
  exact ((h.start program arguments quiet hprogram).adapt _).bind fun _ => .pure _

theorem runChecked (hprogram : program.toList.contains '/' = true → reach ⟨program⟩) :
    Work.Respects R (runChecked program arguments) :=
  (h.run hprogram).bind fun _ => .of_reply _

omit h in
/-- Only a script is a file. -/
theorem reach_of_name (hname : program.toList.contains '/' = false) :
    program.toList.contains '/' = true → reach ⟨program⟩ := by
  intro hscript
  rw [hname] at hscript
  cases hscript

theorem perform (hname : program.toList.contains '/' = false) :
    Work.Respects R (perform program arguments) :=
  (h.runChecked (reach_of_name hname)).bind fun _ => .pure ()

theorem refreshIndex : Work.Respects R refreshIndex := by
  refine Work.Respects.adapt ?_ _
  refine (h.run (reach_of_name (by decide))).bind fun output => ?_
  exact (Work.Respects.of_reply (output.check "apt-get")).bind fun _ => .pure ()

theorem queryInstalled (package : String) : Work.Respects R (queryInstalled package) := by
  have hrun : Work.Respects R
      (Machine.run "dpkg-query" ["-W", "-f=$\x7bStatus\x7d", package] false) :=
    h.run (reach_of_name (by decide))
  intro m n hmn
  obtain ⟨hreply, hafter⟩ := hrun m n hmn
  unfold Machine.queryInstalled
  rcases hm : Machine.run "dpkg-query" _ false m with ⟨r, m'⟩
  rcases hn : Machine.run "dpkg-query" _ false n with ⟨r', n'⟩
  rw [hm, hn] at hreply hafter
  obtain rfl : r = r' := hreply
  cases r with
  | error error => exact ⟨rfl, hafter⟩
  | ok output => exact ⟨rfl, hafter⟩

theorem installPackage (package : String) : Work.Respects R (installPackage package) := by
  refine (h.queryInstalled package).bind fun installed => .ite (h.note _ _ _) ?_
  refine ((h.run (reach_of_name (by decide))).adapt _).bind fun output => ?_
  have hend : ∀ answer : Except PackageError CommandOutput, Work.Respects R
      (ExceptT.mk (pure answer) >>= fun _ =>
        (Machine.note .info systemComponent "Installed package" : Work PackageError Unit)) :=
    fun answer => (Work.Respects.of_reply answer).bind fun _ => h.note _ _ _
  exact .ite ((Work.Respects.throw _).bind fun _ => hend _) (hend _)

theorem ensureGroup (group : String) : Work.Respects R (ensureGroup group) := by
  refine (h.run (reach_of_name (by decide))).bind fun output => .ite (.pure ()) ?_
  exact (h.runChecked (reach_of_name (by decide))).bind fun _ => h.note _ _ _

theorem pruneContainers : Work.Respects R pruneContainers :=
  (h.runChecked (reach_of_name (by decide))).bind fun _ => h.note _ _ _

theorem carryOut {call : Host.Call} (hcall : ∀ p ∈ call.path?, reach p) (hmn : R m n) :
    (carryOut call m).1 = (Machine.carryOut call n).1 ∧
      R (Machine.carryOut call m).2 (Machine.carryOut call n).2 := by
  cases call with
  | refreshIndex => exact h.refreshIndex m n hmn
  | installPackage package => exact h.installPackage package m n hmn
  | ensureGroup group => exact h.ensureGroup group m n hmn
  | addToGroup user group => exact h.perform (by decide) m n hmn
  | reloadSupervisor => exact h.perform (by decide) m n hmn
  | enableUnit unit => exact h.perform (by decide) m n hmn
  | restartUnit unit => exact h.perform (by decide) m n hmn
  | queryStatus unit => exact h.run (reach_of_name (by decide)) m n hmn
  | pruneContainers => exact h.pruneContainers m n hmn
  | createDirectories path => exact h.makeDirectories path (hcall path rfl) m n hmn
  | writeFile path contents mode => exact h.writeFile path contents mode (hcall path rfl) m n hmn
  | changeOwner path user group => exact h.perform (by decide) m n hmn
  | runScript path => exact h.runChecked (fun _ => hcall path rfl) m n hmn

/-- Related machines answer a call alike if it is about no path but one in reach. -/
theorem answer {call : Host.Call} (hcall : ∀ p ∈ call.path?, reach p) (hmn : R m n) :
    (answer call m).reply = (Machine.answer call n).reply ∧
      R (Machine.answer call m).world (Machine.answer call n).world := by
  obtain ⟨hreply, hafter⟩ := h.carryOut hcall (h.log m n (fun _ => []) hmn)
  exact ⟨hreply, h.log _ _ (fun _ => []) hafter⟩

end Steady

/-! ## Programs that leave files -/

/-- In trees that agree programs that react by this rule leave the same where it is not hidden. -/
def Rule.Tidy (hidden : Place → Prop) (current : Place) (rule : Rule) : Prop :=
  ∀ reaction ∈ rule.reactions, ∀ file ∈ reaction.files, ∀ t u : FileTree, t.current = current →
    AgreeBut hidden t u → AgreeBut hidden (t.provide file.1 file.2) (u.provide file.1 file.2)

def Tidy (hidden : Place → Prop) (current : Place) (m : Machine) : Prop :=
  ∀ rule ∈ m.rules, rule.Tidy hidden current

theorem mem_of_takeNext {a : α} {list : List α} :
    (a ∈ (Rehearsal.takeNext list).1 → a ∈ list) ∧
      (a ∈ (Rehearsal.takeNext list).2 → a ∈ list) := by
  rcases list with _ | ⟨first, _ | ⟨second, more⟩⟩
  · simp [Rehearsal.takeNext]
  · simp [Rehearsal.takeNext, eq_comm]
  · simp only [Rehearsal.takeNext, Option.mem_def, Option.some.injEq]
    exact ⟨fun h => h ▸ List.mem_cons_self, List.mem_cons_of_mem _⟩

/-- A reaction is one of some rule, and no rule gets another. -/
theorem of_react {P : Reaction → Prop} {rules : List Rule} (words : List String)
    (h : ∀ rule ∈ rules, ∀ reaction ∈ rule.reactions, P reaction) (hnone : P {}) :
    P (react words rules).1 ∧
      ∀ rule ∈ (react words rules).2, ∀ reaction ∈ rule.reactions, P reaction := by
  induction rules with
  | nil => exact ⟨hnone, fun _ hrule => nomatch hrule⟩
  | cons rule rules ih =>
    have hrule := h rule List.mem_cons_self
    have hrules := fun other hother => h other (List.mem_cons_of_mem rule hother)
    rw [react]
    by_cases hfits : rule.words.isPrefixOf words = true
    · rw [if_pos hfits]
      constructor
      · cases hnext : (Rehearsal.takeNext rule.reactions).1 with
        | none =>
          dsimp only
          rw [hnext]
          exact hnone
        | some reaction =>
          dsimp only
          rw [hnext]
          exact hrule reaction (mem_of_takeNext.1 hnext)
      · intro other hother
        rcases List.mem_cons.mp hother with rfl | hother
        · exact fun reaction hreaction => hrule reaction (mem_of_takeNext.2 hreaction)
        · exact hrules other hother
    · rw [if_neg hfits]
      obtain ⟨hfirst, hrest⟩ := ih hrules
      refine ⟨hfirst, fun other hother => ?_⟩
      rcases List.mem_cons.mp hother with rfl | hother
      · exact hrule
      · exact hrest other hother

theorem tidy_start (h : Tidy hidden current m) (program : String) (arguments : List String)
    (quiet : Bool) : Tidy hidden current (start program arguments quiet m).2 := by
  unfold start
  by_cases hnul : (program :: arguments).any (·.toList.contains '\x00') = true
  · rw [if_pos hnul]
    exact h
  · rw [if_neg hnul]
    cases m.findProgram program with
    | error fault => exact h
    | ok name => exact (of_react (name :: arguments) h nofun).2

/-- No call makes a machine leave other files than before. -/
theorem steady_tidy :
    Steady (fun m n => m = n ∧ Tidy hidden current m) fun _ => True where
  log := by
    rintro m _ entries ⟨rfl, htidy⟩
    exact ⟨rfl, htidy⟩
  start := by
    rintro program arguments quiet - m _ ⟨rfl, htidy⟩
    exact ⟨rfl, rfl, tidy_start htidy program arguments quiet⟩
  makeDirectories := by
    rintro path - m _ ⟨rfl, htidy⟩
    exact ⟨rfl, rfl, htidy⟩
  writeFile := by
    rintro path contents mode - m _ ⟨rfl, htidy⟩
    exact ⟨rfl, rfl, htidy⟩

theorem tidy_answer (h : Tidy hidden current m) (call : Host.Call) :
    Tidy hidden current (answer call m).world :=
  (steady_tidy.answer (fun _ _ => trivial) ⟨rfl, h⟩).2.2

theorem agreeBut_leave {files : List (Path × Option ByteArray)} {t u : FileTree}
    (h : AgreeBut hidden t u) (hcurrent : t.current = current)
    (hfiles : ∀ file ∈ files, ∀ t u : FileTree, t.current = current → AgreeBut hidden t u →
      AgreeBut hidden (t.provide file.1 file.2) (u.provide file.1 file.2)) :
    AgreeBut hidden (files.foldl (fun t (path, content) => t.provide path content) t)
        (files.foldl (fun t (path, content) => t.provide path content) u) ∧
      (files.foldl (fun t (path, content) => t.provide path content) t).current = current := by
  induction files generalizing t u with
  | nil => exact ⟨h, hcurrent⟩
  | cons file files ih =>
    have hagree := hfiles file List.mem_cons_self t u hcurrent h
    have hafter := (FileTree.current_provide t file.1 file.2).trans hcurrent
    exact ih hagree hafter fun other hother => hfiles other (List.mem_cons_of_mem _ hother)

/-! ## Twins -/

/-- The machines differ in their files alone, and in these only where it is hidden, and what programs
leave does not make them differ more. -/
structure Twins (hidden : Place → Prop) (current : Place) (m n : Machine) : Prop where
  files : AgreeBut hidden m.files n.files
  tidy : Tidy hidden current m
  rest : { m with files := n.files } = n
  current : m.files.current = current

namespace Twins

theorem exists_files (h : Twins hidden current m n) :
    ∃ t, n = { m with files := t } ∧ AgreeBut hidden m.files t :=
  ⟨n.files, h.rest.symm, h.files⟩

theorem withFiles (h : Twins hidden current m n) {t u : FileTree}
    (hfiles : AgreeBut hidden t u) (hcurrent : t.current = current) :
    Twins hidden current { m with files := t } { n with files := u } := by
  obtain ⟨_, rfl, -⟩ := h.exists_files
  exact ⟨hfiles, h.tidy, rfl, hcurrent⟩

/-- Twins find the same programs, if no script is sought where it is hidden. -/
theorem findProgram_eq {program : String} (h : Twins hidden current m n)
    (hprogram : program.toList.contains '/' = true → PathAvoids hidden current ⟨program⟩) :
    m.findProgram program = n.findProgram program := by
  have hfiles := h.files
  have hcurrent := h.current
  obtain ⟨t, rfl, -⟩ := h.exists_files
  unfold findProgram
  by_cases hscript : program.toList.contains '/' = true
  · have hpath := hprogram hscript
    rw [← hcurrent] at hpath
    have hfound : m.findScript ⟨program⟩ = findScript { m with files := t } ⟨program⟩ := by
      unfold findScript
      rw [hfiles.find_eq hpath]
    rw [if_pos hscript, if_pos hscript, hfound]
  · rw [if_neg hscript, if_neg hscript]

theorem start {program : String} (h : Twins hidden current m n) (arguments : List String)
    (quiet : Bool)
    (hprogram : program.toList.contains '/' = true → PathAvoids hidden current ⟨program⟩) :
    (Machine.start program arguments quiet m).1 = (Machine.start program arguments quiet n).1 ∧
      Twins hidden current (Machine.start program arguments quiet m).2
        (Machine.start program arguments quiet n).2 := by
  have hfind := h.findProgram_eq hprogram
  have hcurrent := h.current
  have htidy := h.tidy
  obtain ⟨t, rfl, hagree⟩ := h.exists_files
  unfold Machine.start
  rw [← hfind]
  by_cases hnul : (program :: arguments).any (·.toList.contains '\x00') = true
  · rw [if_pos hnul, if_pos hnul]
    exact ⟨rfl, h⟩
  · rw [if_neg hnul, if_neg hnul]
    cases m.findProgram program with
    | error fault => exact ⟨rfl, h⟩
    | ok name =>
      obtain ⟨hfiles, hrules⟩ := of_react (name :: arguments) htidy nofun
      obtain ⟨hleft, hafter⟩ := agreeBut_leave hagree hcurrent hfiles
      exact ⟨rfl, hleft, hrules, rfl, hafter⟩

end Twins

theorem writeFile_eq {t u : FileTree} (h : AgreeBut hidden t u)
    (hpath : PathAvoids hidden t.current path) (contents : String) (mode : Nat) :
    SameOutcome hidden (writeFile path contents mode t) (writeFile path contents mode u) ∧
      (writeFile path contents mode t).2.current = t.current := by
  have hcheck : checkWritable t path = checkWritable u path := by
    rw [checkWritable, checkWritable, h.find_eq hpath]
  unfold writeFile
  rw [← hcheck]
  cases checkWritable t path with
  | error fault => exact ⟨⟨rfl, h⟩, rfl⟩
  | ok _ =>
    simp only [bind, Except.bind, FileTree.writeText]
    rcases h.write_eq hpath contents.toUTF8 with ⟨fault, ht, hu⟩ | ⟨t', u', ht, hu, hafter⟩
    · rw [ht, hu]
      exact ⟨⟨rfl, h⟩, rfl⟩
    · have hcurrent := FileTree.current_write ht
      rw [ht, hu]
      dsimp only
      rw [← hcurrent] at hpath ⊢
      rcases hafter.setMode_eq hpath mode with ⟨fault, hs, hs'⟩ | ⟨t'', u'', hs, hs', hset⟩
      · rw [hs, hs']
        exact ⟨⟨rfl, hafter⟩, rfl⟩
      · rw [hs, hs']
        exact ⟨⟨rfl, hset⟩, FileTree.current_setMode hs⟩

/-- Twins answer every call alike that is about no file where it is hidden. -/
theorem steady_twins : Steady (Twins hidden current) (PathAvoids hidden current) where
  log m n entries h := by
    obtain ⟨t, rfl, hfiles⟩ := h.exists_files
    exact ⟨hfiles, h.tidy, rfl, h.current⟩
  start program arguments quiet hprogram m n h := h.start arguments quiet hprogram
  makeDirectories path hpath m n h := by
    have hcurrent := h.current
    rw [← hcurrent] at hpath
    obtain ⟨hreply, hafter⟩ := h.files.makeDirectories_eq hpath
    exact ⟨hreply, h.withFiles hafter ((FileTree.grows_makeChain _ _).current.trans hcurrent)⟩
  writeFile path contents mode hpath m n h := by
    have hcurrent := h.current
    rw [← hcurrent] at hpath
    obtain ⟨⟨hreply, hafter⟩, hsame⟩ := writeFile_eq h.files hpath contents mode
    exact ⟨hreply, h.withFiles hafter (hsame.trans hcurrent)⟩

end Machine

end RelayKeeper
