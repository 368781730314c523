import RelayKeeper.Relay.Fingerprints
import RelayKeeper.Proofs.TreeBeside

/-! # Keys beside records

Keys that are ready after JSON files were written were ready before, and the same. -/
namespace RelayKeeper

namespace Key.Material

variable {m : Material} {t u : FileTree}

theorem isName_rsa : FileTree.IsName "ssh_host_rsa_key.pub" := by
  decide

theorem isName_ed25519 : FileTree.IsName "ssh_host_ed25519_key.pub" := by
  decide

theorem isFilled_congr {p : Path} (h : t.find p = u.find p) : isFilled t p = isFilled u p := by
  unfold isFilled
  rw [h]

theorem fingerprintFile_congr {p : Path} (h : t.find p = u.find p) :
    fingerprintFile t p = fingerprintFile u p := by
  have hread : t.readText p = u.readText p := by
    unfold FileTree.readText FileTree.read
    rw [h]
  unfold fingerprintFile
  rw [hread]

theorem fingerprints_congr (hdirectory : t.find m.directory = u.find m.directory)
    (hrsa : t.find m.rsaPublicKey = u.find m.rsaPublicKey)
    (hed25519 : t.find m.ed25519PublicKey = u.find m.ed25519PublicKey) :
    m.fingerprints t = m.fingerprints u := by
  have hd : t.isDirectory m.directory = u.isDirectory m.directory := by
    unfold FileTree.isDirectory
    rw [hdirectory]
  have hmissing : m.missing? t = m.missing? u := by
    unfold missing?
    rw [hd, isFilled_congr hrsa, isFilled_congr hed25519]
  unfold fingerprints
  rw [hmissing, fingerprintFile_congr hrsa, fingerprintFile_congr hed25519]

theorem find_of_isFilled {p : Path} (h : isFilled u p = true) :
    ∃ q node, u.find p = .ok (q, node) := by
  unfold isFilled at h
  split at h
  · exact ⟨_, _, by assumption⟩
  · cases h

theorem find_of_isDirectory {p : Path} (h : u.isDirectory p = true) :
    ∃ q, u.find p = .ok (q, .directory) := by
  unfold FileTree.isDirectory at h
  split at h
  · exact ⟨_, by assumption⟩
  · cases h

theorem found_of_ready {ready : Fingerprints} (h : m.fingerprints u = .ok (.ready ready)) :
    (∃ q, u.find m.directory = .ok (q, .directory)) ∧
      (∃ q node, u.find m.rsaPublicKey = .ok (q, node)) ∧
      ∃ q node, u.find m.ed25519PublicKey = .ok (q, node) := by
  have hnone : m.missing? u = none := by
    unfold fingerprints at h
    cases hm : m.missing? u with
    | none => rfl
    | some missing =>
      rw [hm] at h
      cases h
  unfold missing? at hnone
  split at hnone
  · cases hnone
  · next hd =>
    split at hnone
    · cases hnone
    · next hr =>
      split at hnone
      · cases hnone
      · next he =>
        simp only [Bool.not_eq_true', Bool.not_eq_false] at hd hr he
        exact ⟨find_of_isDirectory hd, find_of_isFilled hr, find_of_isFilled he⟩

/-- Keys that are ready after JSON files were written were ready before, and the same. -/
theorem fingerprints_beside (h : FileTree.Beside t u) {ready : Fingerprints}
    (hu : m.fingerprints u = .ok (.ready ready)) : m.fingerprints t = .ok (.ready ready) := by
  obtain ⟨⟨_, hdirectory⟩, ⟨_, _, hrsa⟩, _, _, hed25519⟩ := found_of_ready hu
  rw [← hu]
  apply fingerprints_congr
  · rw [hdirectory, h.find_directory hdirectory]
  · rw [hrsa]
    exact h.find_join isName_rsa (by decide) hrsa
  · rw [hed25519]
    exact h.find_join isName_ed25519 (by decide) hed25519

end Key.Material

end RelayKeeper
