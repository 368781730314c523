import RelayKeeper.Proofs.RecordBags

/-! # The record refines a ledger

A ledger is the record without files: a status, a set of ports and a map of bags. Every request to a
store is answered as the ledger answers it, whatever was asked before, if the record starts on a root
where nothing is. -/
namespace RelayKeeper.Record

open FileTree (Vacant)

structure Ledger where
  status : Option Status
  ports : Ports
  bags : Bags

inductive Request where
  | setStatus (status : Status)
  | openPort (port : UInt16)
  | join (id : String)
  | update (id : String) (data : Bag)
  | relations
  | relationData (id : String)
  | status
  | openedPorts

namespace Request

abbrev Value : Request → Type
  | .setStatus _ | .openPort _ | .join _ | .update .. => Unit
  | .relations => List String
  | .relationData _ => Bag
  | .status => Option Status
  | .openedPorts => Ports

abbrev Reply (request : Request) : Type :=
  Except StoreError request.Value

def id? : Request → Option String
  | .join id | .update id _ | .relationData id => some id
  | _ => none

/-- The consumer that a request is about has a file name, unless its id is refused. -/
def Fits (request : Request) : Prop :=
  ∀ id ∈ request.id?, IsSafeId id → FitsName id

instance (request : Request) : Decidable request.Fits :=
  inferInstanceAs (Decidable (∀ id ∈ request.id?, _))

end Request

namespace Ledger

def empty : Ledger := ⟨none, ∅, ∅⟩

def perform (l : Ledger) : (request : Request) → request.Reply × Ledger
  | .setStatus status => (.ok (), { l with status := some status })
  | .openPort port => (.ok (), { l with ports := l.ports.insert port })
  | .join id =>
    if IsSafeId id then (.ok (), { l with bags := l.bags.insertIfNew id ∅ })
    else (.error (.invalidId id), l)
  | .update id data =>
    if IsSafeId id then
      (.ok (), { l with bags := l.bags.insert id ((l.bags[id]?.getD ∅).insertMany data.toList) })
    else (.error (.invalidId id), l)
  | .relations => (.ok l.bags.keys, l)
  | .relationData id =>
    if IsSafeId id then (.ok (l.bags[id]?.getD ∅), l) else (.error (.invalidId id), l)
  | .status => (.ok l.status, l)
  | .openedPorts => (.ok l.ports, l)

end Ledger

theorem Bag.getElem?_overlay (bag data : Bag) (name : String) :
    (bag.overlay data)[name]? = data[name]?.or bag[name]? :=
  Std.ExtTreeMap.getElem?_union

/-- The new entries replace the old ones of their names. -/
theorem Bag.overlay_eq_insertMany (bag data : Bag) :
    bag.overlay data = bag.insertMany data.toList := by
  apply Std.ExtTreeMap.ext_getElem?
  intro name
  rw [getElem?_overlay]
  cases h : data[name]? with
  | some value =>
    have hm := Std.ExtTreeMap.mem_toList_iff_getElem?_eq_some.mpr h
    rw [Option.some_or, Std.ExtTreeMap.getElem?_insertMany_list_of_mem Std.ReflCmp.compare_self
      Std.ExtTreeMap.distinct_keys_toList hm]
  | none =>
    rw [Option.none_or, Std.ExtTreeMap.getElem?_insertMany_list_of_contains_eq_false]
    rw [Std.ExtTreeMap.map_fst_toList_eq_keys]
    simpa using h

namespace Store

def perform (s : Store) (t : FileTree) : (request : Request) → request.Reply × FileTree
  | .setStatus status => s.setStatus status t
  | .openPort port => s.openPort port t
  | .join id => s.joinRelation id t
  | .update id data => s.updateRelation id data t
  | .relations => (s.relations t, t)
  | .relationData id => (s.relationData id t, t)
  | .status => (s.status t, t)
  | .openedPorts => (s.openedPorts t, t)

end Store

abbrev Answer := (request : Request) × request.Reply

def answers (perform : σ → (request : Request) → request.Reply × σ) :
    σ → List Request → List Answer × σ
  | state, [] => ([], state)
  | state, request :: requests =>
    let (reply, next) := perform state request
    let (rest, last) := answers perform next requests
    (⟨request, reply⟩ :: rest, last)

namespace Store

/-- The root leads to an empty directory, or to a place where none is yet. -/
def Fresh (s : Store) (t : FileTree) : Prop :=
  '\x00' ∉ s.root.chars ∧ ∃ place, Vacant t (t.start s.root) s.root.names place

/-- The files below the root hold what the ledger says. -/
structure Shows (s : Store) (t : FileTree) (place : Place) (l : Ledger) : Prop where
  lies : s.Lies t place
  status : Stored t (place ++ ["status.json"]) (l.status.map Status.toJson)
  ports : ∃ ports : Option Ports, ports.getD ∅ = l.ports ∧
    Stored t (place ++ ["ports.json"]) (ports.map Ports.toJson)
  bags : ShowsBags t place l.bags

variable {s : Store} {t u : FileTree} {place : Place} {l : Ledger}

theorem Fresh.shows_empty (h : s.Fresh t) : ∃ place, s.Shows t place .empty := by
  obtain ⟨hnul, place, hv⟩ := h
  have hnone : ∀ below : Place, below ≠ [] → t.node? (place ++ below) = none :=
    fun below hb => hv.nothing_below hb
  refine ⟨place, ⟨hnul, .inr hv⟩, ?_, ⟨none, rfl, ?_⟩, ⟨?_, ?_, ?_⟩⟩
  · exact hnone ["status.json"] (by simp)
  · exact hnone ["ports.json"] (by simp)
  · right
    intro below
    have hbelow := hnone (bagsName :: below) (by simp)
    simpa [bagsPlace] using hbelow
  · intro id _
    have hfile := hnone [bagsName, bagName id] (by simp)
    have hplace : t.node? (bagsPlace place ++ [bagName id]) = none := by
      simpa [bagsPlace] using hfile
    have hbag : (Ledger.empty.bags[id]?).map Bag.toJson = none := by simp [Ledger.empty]
    rw [hbag]
    exact hplace
  · intro id hm
    simp [Ledger.empty] at hm

theorem Shows.status_eq (h : s.Shows t place l) : s.status t = .ok l.status :=
  readJson_of_finds (h.lies.finds_top isName_status) Status.readsBack h.status

theorem Shows.openedPorts_eq (h : s.Shows t place l) : s.openedPorts t = .ok l.ports := by
  obtain ⟨ports, hports, hs⟩ := h.ports
  have hr := readJson_of_finds (h.lies.finds_top isName_ports) Ports.readsBack hs
  rw [openedPorts, portsPath, hr, ← hports]
  rfl

/-- A new bag leaves the status and the ports. -/
theorem Shows.writesBag {bags : Bags} (h : s.Shows t place l) (hw : WritesBag s t u place bags) :
    s.Shows u place { l with bags } := by
  obtain ⟨ports, hports, hs⟩ := h.ports
  refine ⟨hw.lies, h.status.congr (hw.rest _ (by decide)), ?_, hw.shows⟩
  exact ⟨ports, hports, hs.congr (hw.rest _ (by decide))⟩

theorem Shows.setStatus_eq (h : s.Shows t place l) (status : Status) :
    ∃ u, s.setStatus status t = (.ok (), u) ∧
      s.Shows u place { l with status := some status } := by
  obtain ⟨r, u, hu, hw, hok⟩ := h.lies.writeJson_eq isName_status status.toJson
  obtain ⟨rfl, hstored⟩ := hok h.status.not_directory
  obtain ⟨ports, hports, hs⟩ := h.ports
  refine ⟨u, hu, hw.lies, hstored, ⟨ports, hports, ?_⟩, hw.showsBags (by decide) h.bags⟩
  exact hs.congr (hw.rest _ (by simp) (by simp))

theorem openPort_of_ports {ports : Ports} (h : s.openedPorts t = .ok ports) (port : UInt16) :
    s.openPort port t = if port ∈ ports then (.ok (), t)
      else writeJson s.portsPath (Ports.toJson (ports.insert port)) t := by
  delta openPort
  rw [h]

theorem insert_of_mem {ports : Ports} {port : UInt16} (h : port ∈ ports) :
    ports.insert port = ports := by
  apply Std.ExtTreeSet.ext_mem
  intro other
  rw [Std.ExtTreeSet.mem_insert, Std.LawfulEqOrd.compare_eq_iff_eq]
  constructor
  · rintro (rfl | ho)
    · exact h
    · exact ho
  · exact .inr

theorem Shows.openPort_eq (h : s.Shows t place l) (port : UInt16) :
    ∃ u, s.openPort port t = (.ok (), u) ∧
      s.Shows u place { l with ports := l.ports.insert port } := by
  rw [openPort_of_ports h.openedPorts_eq]
  by_cases hm : port ∈ l.ports
  · rw [if_pos hm, insert_of_mem hm]
    exact ⟨t, rfl, h⟩
  · obtain ⟨ports, -, hs⟩ := h.ports
    obtain ⟨r, u, hu, hw, hok⟩ :=
      h.lies.writeJson_eq isName_ports (Ports.toJson (l.ports.insert port))
    obtain ⟨rfl, hstored⟩ := hok hs.not_directory
    rw [if_neg hm]
    refine ⟨u, hu, hw.lies, ?_, ⟨some _, rfl, hstored⟩, hw.showsBags (by decide) h.bags⟩
    exact h.status.congr (hw.rest _ (by simp) (by simp))

/-- A refused id changes nothing. -/
theorem perform_unsafe (s : Store) (t : FileTree) {request : Request} {id : String}
    (hid : request.id? = some id) (h : ¬ IsSafeId id) :
    s.perform t request = (.error (.invalidId id), t) := by
  have hpath := s.bagPath_of_not_safe h
  cases request with
  | join other | update other data =>
    obtain rfl : other = id := by simpa [Request.id?] using hid
    simp only [perform, joinRelation, updateRelation, hpath]
  | relationData other =>
    obtain rfl : other = id := by simpa [Request.id?] using hid
    simp only [perform, relationData, hpath]
    rfl
  | _ => simp [Request.id?] at hid

/-- A request is answered as the ledger answers it, and the files follow the ledger. -/
theorem Shows.perform_eq (h : s.Shows t place l) {request : Request} (hf : request.Fits) :
    ∃ u, s.perform t request = ((l.perform request).1, u) ∧
      s.Shows u place (l.perform request).2 := by
  cases request with
  | setStatus status => exact h.setStatus_eq status
  | openPort port => exact h.openPort_eq port
  | join id =>
    by_cases hid : IsSafeId id
    · obtain ⟨u, hu, hw⟩ := h.bags.joinRelation_eq h.lies hid (hf id rfl hid)
      simp only [Ledger.perform, if_pos hid]
      exact ⟨u, hu, h.writesBag hw⟩
    · have hid' : (Request.join id).id? = some id := rfl
      simp only [Ledger.perform, if_neg hid, s.perform_unsafe t hid' hid]
      exact ⟨t, rfl, h⟩
  | update id data =>
    by_cases hid : IsSafeId id
    · obtain ⟨u, hu, hw⟩ := h.bags.updateRelation_eq h.lies hid (hf id rfl hid) data
      rw [Bag.overlay_eq_insertMany] at hw
      simp only [Ledger.perform, if_pos hid]
      exact ⟨u, hu, h.writesBag hw⟩
    · have hid' : (Request.update id data).id? = some id := rfl
      simp only [Ledger.perform, if_neg hid, s.perform_unsafe t hid' hid]
      exact ⟨t, rfl, h⟩
  | relations =>
    refine ⟨t, ?_, h⟩
    simp only [perform, h.bags.relations_eq h.lies, Ledger.perform]
  | relationData id =>
    refine ⟨t, ?_, ?_⟩
    · by_cases hid : IsSafeId id
      · simp only [perform, Ledger.perform, if_pos hid,
          h.bags.relationData_eq h.lies hid (hf id rfl hid)]
      · have hid' : (Request.relationData id).id? = some id := rfl
        simp only [Ledger.perform, if_neg hid, s.perform_unsafe t hid' hid]
    · simp only [Ledger.perform]
      split <;> exact h
  | status =>
    refine ⟨t, ?_, h⟩
    simp only [perform, h.status_eq, Ledger.perform]
  | openedPorts =>
    refine ⟨t, ?_, h⟩
    simp only [perform, h.openedPorts_eq, Ledger.perform]

theorem Shows.answers_eq (h : s.Shows t place l) {requests : List Request}
    (hf : ∀ request ∈ requests, request.Fits) :
    (answers s.perform t requests).1 = (answers Ledger.perform l requests).1 := by
  induction requests generalizing t l with
  | nil => rfl
  | cons request requests ih =>
    obtain ⟨u, hu, hnext⟩ := h.perform_eq (hf request (by simp))
    have hrest := ih hnext fun other ho => hf other (by simp [ho])
    simp only [answers, hu, hrest]

end Store

/-- The ledger refuses ids, and has no other errors. -/
theorem Ledger.perform_error {l : Ledger} {request : Request} {error : StoreError}
    (h : (l.perform request).1 = .error error) :
    ∃ id, request.id? = some id ∧ ¬ IsSafeId id ∧ error = .invalidId id := by
  cases request with
  | join id | update id data | relationData id =>
    refine ⟨id, rfl, ?_⟩
    by_cases hid : IsSafeId id
    · simp [perform, hid] at h
    · simp only [perform, if_neg hid, Except.error.injEq] at h
      exact ⟨hid, h.symm⟩
  | _ => cases h

theorem Ledger.answers_error {l : Ledger} {requests : List Request} {answer : Answer}
    (ha : answer ∈ (answers Ledger.perform l requests).1) {error : StoreError}
    (he : answer.2 = .error error) :
    ∃ id, answer.1.id? = some id ∧ ¬ IsSafeId id ∧ error = .invalidId id := by
  induction requests generalizing l with
  | nil => cases ha
  | cons request requests ih =>
    rcases List.mem_cons.mp ha with rfl | ha
    · exact perform_error he
    · exact ih ha

namespace Store

/-- A record that starts on a fresh root answers every list of requests as the ledger does: what was
set, added, joined and updated is what is read. Only ids are refused, and that changes nothing. -/
theorem answers_eq_ledger (s : Store) (t : FileTree) (hfresh : s.Fresh t)
    (requests : List Request) (hfits : ∀ request ∈ requests, request.Fits) :
    (answers s.perform t requests).1 = (answers Ledger.perform .empty requests).1 ∧
      (∀ answer ∈ (answers s.perform t requests).1, ∀ error, answer.2 = .error error →
        ∃ id, answer.1.id? = some id ∧ ¬ IsSafeId id ∧ error = .invalidId id) ∧
      ∀ u request id, request.id? = some id → ¬ IsSafeId id →
        s.perform u request = (.error (.invalidId id), u) := by
  obtain ⟨place, hshows⟩ := hfresh.shows_empty
  have heq := hshows.answers_eq hfits
  refine ⟨heq, ?_, ?_⟩
  · intro answer ha error he
    rw [heq] at ha
    exact Ledger.answers_error ha he
  · intro u request id hid hunsafe
    exact s.perform_unsafe u hid hunsafe

theorem fresh_empty : Store.Fresh ⟨⟨"/state"⟩⟩ .empty := by
  have hnames : (⟨"/state"⟩ : Path).names = ["state"] := by decide
  have hstart : FileTree.empty.start ⟨"/state"⟩ = [] := by decide
  have hname : FileTree.IsName "state" := by decide
  refine ⟨by decide, ["state"], ?_⟩
  rw [hnames, hstart]
  refine .absent (FileTree.node?_nil _) (fun below => ?_) (by simpa using hname)
  simp [FileTree.node?, FileTree.empty]

def visit : List Request :=
  [.join "web:0", .update "web:0" (.ofList [("host", "a\n")]), .join "../web",
    .update "web:0" (.ofList [("port", "22")]), .relationData "web:0", .relations]

theorem answers_eq_ledger_visit :
    Store.Fresh ⟨⟨"/state"⟩⟩ .empty ∧ (∀ request ∈ visit, request.Fits) ∧
      (answers (perform ⟨⟨"/state"⟩⟩) .empty visit).1 =
        [⟨.join "web:0", .ok ()⟩, ⟨.update "web:0" (.ofList [("host", "a\n")]), .ok ()⟩,
          ⟨.join "../web", .error (.invalidId "../web")⟩,
          ⟨.update "web:0" (.ofList [("port", "22")]), .ok ()⟩,
          ⟨.relationData "web:0", .ok (.ofList [("host", "a\n"), ("port", "22")])⟩,
          ⟨.relations, .ok ["web:0"]⟩] := by
  have hfits : ∀ request ∈ visit, request.Fits := by decide
  refine ⟨fresh_empty, hfits, ?_⟩
  exact (answers_eq_ledger _ _ fresh_empty visit hfits).1.trans rfl

end Store

end RelayKeeper.Record
