import Unlog.Runtime.Registration

/-! Sink targets: what a sink type writes to, and the key under which equal targets meet. -/

namespace Unlog

/-- What tells two sinks of one type apart. -/
inductive SinkTarget where
  | stream
  | fd (number : ℤ)
  | path (bytes : Text)
  deriving DecidableEq, Repr

/-- The target of a configuration, if it is there. -/
def sinkTarget (conf : Config) : Option SinkTarget :=
  match conf.sinkType with
  | .cout | .cerr => some .stream
  | .fd => conf.outputFd.map .fd
  | .file => conf.filename.map .path
  | .unixDgram => conf.unixDgramPath.map .path

/-- The key of the registration that `make_channel` builds. -/
def Config.targetKey (conf : Config) : Text :=
  sinkTargetKey conf.sinkType conf.filename conf.outputFd conf.unixDgramPath

/-! ## Numbers -/

theorem toUInt8_inj {c d : Char} (hc : c.toNat < 256) (hd : d.toNat < 256)
    (h : c.toUInt8 = d.toUInt8) : c = d := by
  apply Char.toNat_inj.mp
  have hnat := congrArg UInt8.toNat h
  simp only [Char.toUInt8, UInt32.toNat_toUInt8] at hnat
  change c.toNat % 256 = d.toNat % 256 at hnat
  rwa [Nat.mod_eq_of_lt hc, Nat.mod_eq_of_lt hd] at hnat

/-- Texts of small characters are told apart by their bytes. -/
theorem ascii_inj {s s' : String} (hs : ∀ c ∈ s.toList, c.toNat < 256)
    (hs' : ∀ c ∈ s'.toList, c.toNat < 256) (h : ascii s = ascii s') : s = s' := by
  apply String.toList_inj.mp
  unfold ascii at h
  generalize s.toList = cs at h hs
  generalize s'.toList = ds at h hs'
  induction cs generalizing ds with
  | nil => exact (List.map_eq_nil_iff.mp h.symm).symm
  | cons c cs ih =>
      cases ds with
      | nil => simp at h
      | cons d ds =>
          simp only [List.map_cons, List.cons.injEq] at h
          have hhead := toUInt8_inj (hs c List.mem_cons_self) (hs' d List.mem_cons_self) h.1
          have htail := ih (fun c hc => hs c (List.mem_cons_of_mem _ hc)) ds h.2
            fun d hd => hs' d (List.mem_cons_of_mem _ hd)
          rw [hhead, htail]

theorem repr_small (n : ℕ) : ∀ c ∈ n.repr.toList, c.toNat < 256 := by
  intro c hc
  rw [Nat.toList_repr] at hc
  have hdigit := Nat.isDigit_of_mem_toDigits (by decide) (by decide) hc
  have hle : c.toNat ≤ 57 := by
    simp only [Char.isDigit, Bool.and_eq_true, decide_eq_true_eq] at hdigit
    exact hdigit.2
  omega

theorem toString_small (n : ℤ) : ∀ c ∈ (toString n).toList, c.toNat < 256 := by
  cases n with
  | ofNat n => exact repr_small n
  | negSucc n =>
      intro c hc
      have hc' : c ∈ ("-" ++ n.succ.repr).toList := hc
      rw [String.toList_append, List.mem_append] at hc'
      rcases hc' with hminus | hdigits
      · obtain rfl : c = '-' := by simpa using hminus
        decide
      · exact repr_small _ c hdigits

theorem ascii_toString_inj {m n : ℤ} (h : ascii (toString m) = ascii (toString n)) : m = n :=
  Int.repr_injective (ascii_inj (toString_small m) (toString_small n) h)

/-! ## Keys -/

def SinkTarget.bytes : SinkTarget → Text
  | .stream => []
  | .fd number => ascii (toString number)
  | .path bytes => bytes

theorem targetKey_eq {conf : Config} {target : SinkTarget} (h : sinkTarget conf = some target) :
    conf.targetKey = sinkTypeString conf.sinkType ++ ascii "|" ++ target.bytes := by
  unfold sinkTarget at h
  unfold Config.targetKey sinkTargetKey
  congr 1
  cases htype : conf.sinkType with
  | cout | cerr =>
      rw [htype] at h
      obtain rfl := Option.some.inj h
      rfl
  | fd | file | unixDgram =>
      simp only [htype, Option.map_eq_some_iff] at h
      obtain ⟨value, hvalue, rfl⟩ := h
      simp only [hvalue]
      rfl

/-- The separator is the first one. -/
theorem sinkTypeString_inj {sinkType sinkType' : SinkType} {rest rest' : Text}
    (h : sinkTypeString sinkType ++ ascii "|" ++ rest =
      sinkTypeString sinkType' ++ ascii "|" ++ rest') : sinkType = sinkType' ∧ rest = rest' := by
  have hcut : ∀ (sinkType : SinkType) (rest : Text),
      (sinkTypeString sinkType ++ ascii "|" ++ rest).takeWhile (· ≠ '|'.toUInt8) =
        sinkTypeString sinkType := by
    intro sinkType rest
    cases sinkType <;> rfl
  have htype : sinkTypeString sinkType = sinkTypeString sinkType' := by
    rw [← hcut sinkType rest, h, hcut]
  have hsame : sinkType = sinkType' := by
    revert htype
    cases sinkType <;> cases sinkType' <;> decide
  subst hsame
  exact ⟨rfl, List.append_cancel_left h⟩

theorem bytes_inj {conf conf' : Config} {target target' : SinkTarget}
    (h : sinkTarget conf = some target) (h' : sinkTarget conf' = some target')
    (htype : conf.sinkType = conf'.sinkType) (hbytes : target.bytes = target'.bytes) :
    target = target' := by
  unfold sinkTarget at h h'
  rw [← htype] at h'
  cases hconf : conf.sinkType with
  | cout | cerr =>
      rw [hconf] at h h'
      exact Option.some.inj (h.symm.trans h')
  | fd =>
      simp only [hconf, Option.map_eq_some_iff] at h h'
      obtain ⟨number, -, rfl⟩ := h
      obtain ⟨number', -, rfl⟩ := h'
      exact congrArg _ (ascii_toString_inj hbytes)
  | file | unixDgram =>
      simp only [hconf, Option.map_eq_some_iff] at h h'
      obtain ⟨path, -, rfl⟩ := h
      obtain ⟨path', -, rfl⟩ := h'
      exact congrArg _ hbytes

/-- Two configurations meet in one key exactly where type and target agree. -/
theorem targetKey_eq_iff {conf conf' : Config} {target target' : SinkTarget}
    (h : sinkTarget conf = some target) (h' : sinkTarget conf' = some target') :
    conf.targetKey = conf'.targetKey ↔ conf.sinkType = conf'.sinkType ∧ target = target' := by
  rw [targetKey_eq h, targetKey_eq h']
  constructor
  · intro hkey
    obtain ⟨htype, hbytes⟩ := sinkTypeString_inj hkey
    exact ⟨htype, bytes_inj h h' htype hbytes⟩
  · rintro ⟨htype, rfl⟩
    rw [htype]

end Unlog
