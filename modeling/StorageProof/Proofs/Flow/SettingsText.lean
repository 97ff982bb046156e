import StorageProof.CommandLine.Outcome
import StorageProof.Proofs.Sequencing
import StorageProof.Proofs.Text.Utf8
import StorageProof.Proofs.Toml.Document

/-!
# Settings over their defaults

A document is accepted if and only if each key of it is one of nine and its value of the kind of
that key, and then every setting is what the document has for it, or else its default, key by key
and tool by tool. Since no key stands twice, members are taken one after the other, in any order:
each writes its own setting, and none of the later ones writes it again. What a request replaces is
replaced before the settings are checked and before the place of the proving parameters is derived
from them.
-/

namespace StorageProof

/-! ## What a document holds -/

/-- The text that stands under a key. -/
def Toml.textAt (members : List (String × Toml.Value)) (key : String) : Option String :=
  match members.lookup key with
  | some (.text text) => some text
  | _ => none

/-- The integer that stands under a key. -/
def Toml.integerAt (members : List (String × Toml.Value)) (key : String) : Option Int :=
  match members.lookup key with
  | some (.integer n) => some n
  | _ => none

/-- The members of the table that stands under a key. -/
def Toml.tableAt (members : List (String × Toml.Value)) (key : String) :
    Option (List (String × Toml.Value)) :=
  match members.lookup key with
  | some (.table inner) => some inner
  | _ => none

theorem Toml.textAt_eq_some_iff {members : List (String × Toml.Value)} {key text : String} :
    Toml.textAt members key = some text ↔ members.lookup key = some (.text text) := by
  unfold Toml.textAt
  split <;> simp_all

theorem Toml.integerAt_eq_some_iff {members : List (String × Toml.Value)} {key : String} {n : Int} :
    Toml.integerAt members key = some n ↔ members.lookup key = some (.integer n) := by
  unfold Toml.integerAt
  split <;> simp_all

theorem Toml.tableAt_eq_some_iff {members inner : List (String × Toml.Value)} {key : String} :
    Toml.tableAt members key = some inner ↔ members.lookup key = some (.table inner) := by
  unfold Toml.tableAt
  split <;> simp_all

open Toml (textAt integerAt tableAt)

inductive Settings.Kind
  | text
  | word
  | count
  | tools

def Settings.Kind.Admits : Settings.Kind → Toml.Value → Prop
  | .text, v => ∃ text, v = .text text
  | .word, v => ∃ n : Int, v = .integer n ∧ 0 ≤ n ∧ n < UInt32.size
  | .count, v => ∃ n : Int, v = .integer n ∧ 0 ≤ n
  | .tools, v => ∃ inner, v = .table inner ∧
      ∀ m ∈ inner, m.1 ∈ ["extract_frame", "phash", "zkp", "ledger"] ∧ ∃ text, m.2 = .text text

/-- The nine keys, each with the kind of its values. -/
def Settings.kinds : List (String × Settings.Kind) :=
  [("work_dir", .text), ("bin_dir", .text), ("signer", .text), ("reward", .text),
    ("frame_offset", .word), ("frame_count", .word), ("crs_file", .text),
    ("poll_interval_ms", .count), ("tools", .tools)]

/-- A member that is one of the nine, with a value of its kind. -/
def Settings.Fits (m : String × Toml.Value) : Prop :=
  ∃ kind, (m.1, kind) ∈ Settings.kinds ∧ kind.Admits m.2

/-- The names of tools that a table has, over the defaults. -/
structure Tools.Layers (members : List (String × Toml.Value)) (t : Tools) : Prop where
  extractFrame : t.extractFrame = (textAt members "extract_frame").getD "extract-frame"
  phash : t.phash = (textAt members "phash").getD "rust-phash"
  zkp : t.zkp = (textAt members "zkp").getD "zkptrans"
  ledger : t.ledger = (textAt members "ledger").getD "ledger-cli"

/-- The settings that a document has, over the defaults. -/
structure Settings.Layers (home : Path) (members : List (String × Toml.Value)) (s : Settings) :
    Prop where
  workDir : s.workDir = ((textAt members "work_dir").map Path.mk).getD (home.join "test")
  toolDir : s.toolDir = (textAt members "bin_dir").map Path.mk
  signer : s.signer = (textAt members "signer").getD "tester0"
  reward : s.reward = (textAt members "reward").getD "1vid"
  frameOffset : (s.frameOffset.toNat : Int) = (integerAt members "frame_offset").getD 0
  frameCount : (s.frameCount.toNat : Int) = (integerAt members "frame_count").getD 300
  parameterFile : s.parameterFile = (textAt members "crs_file").map Path.mk
  pollMillis : (s.pollMillis.toNat : Int) = (integerAt members "poll_interval_ms").getD 100
  tools : s.tools.Layers ((tableAt members "tools").getD [])

/-! ## Members one after the other -/

section Fold

variable {S : Type} {assign : S → String × Toml.Value → Except SettingsFault S}
  {P : String × Toml.Value → Prop} {s s' : S} {members : List (String × Toml.Value)}

/-- Where every member writes what is its own ahead of others with other keys, all are written. -/
theorem foldlM_eq_ok {written : S → List (String × Toml.Value) → S}
    (hnil : ∀ s, written s [] = s)
    (hcons : ∀ {s m rest}, P m → m.1 ∉ rest.map Prod.fst →
      ∃ s', assign s m = .ok s' ∧ written s' rest = written s (m :: rest))
    (hkeys : (members.map Prod.fst).Nodup) (hall : ∀ m ∈ members, P m) :
    members.foldlM assign s = .ok (written s members) := by
  induction members generalizing s with
  | nil => rw [hnil]; rfl
  | cons m rest ih =>
    obtain ⟨hfresh, hkeys⟩ := List.nodup_cons.mp hkeys
    obtain ⟨hm, hall⟩ := List.forall_mem_cons.mp hall
    obtain ⟨s', hassign, hwritten⟩ := hcons (s := s) hm hfresh
    rw [List.foldlM_cons, hassign, ← hwritten]
    exact ih hkeys hall

/-- Where all members are written, each of them is. -/
theorem forall_of_foldlM_eq_ok
    (hassign : ∀ m ∈ members, ∀ {s s'}, assign s m = .ok s' → P m)
    (h : members.foldlM assign s = .ok s') : ∀ m ∈ members, P m := by
  induction members generalizing s with
  | nil => simp
  | cons m rest ih =>
    obtain ⟨hm, hrest⟩ := List.forall_mem_cons.mp hassign
    rw [List.foldlM_cons] at h
    cases hone : assign s m with
    | error fault =>
      rw [hone] at h
      cases h
    | ok one =>
      rw [hone] at h
      exact List.forall_mem_cons.mpr ⟨hm hone, ih hrest h⟩

end Fold

section Assigning

variable {members rest : List (String × Toml.Value)} {key : String} {v : Toml.Value}

/-- The names with those of a table in the place of some. -/
def Tools.written (t : Tools) (members : List (String × Toml.Value)) : Tools where
  extractFrame := (textAt members "extract_frame").getD t.extractFrame
  phash := (textAt members "phash").getD t.phash
  zkp := (textAt members "zkp").getD t.zkp
  ledger := (textAt members "ledger").getD t.ledger

/-- The settings with those of a document in the place of some. -/
def Settings.written (s : Settings) (members : List (String × Toml.Value)) : Settings where
  workDir := ((textAt members "work_dir").map Path.mk).getD s.workDir
  toolDir := ((textAt members "bin_dir").map Path.mk).or s.toolDir
  signer := (textAt members "signer").getD s.signer
  reward := (textAt members "reward").getD s.reward
  frameOffset := ((integerAt members "frame_offset").map (·.toNat.toUInt32)).getD s.frameOffset
  frameCount := ((integerAt members "frame_count").map (·.toNat.toUInt32)).getD s.frameCount
  parameterFile := ((textAt members "crs_file").map Path.mk).or s.parameterFile
  pollMillis := ((integerAt members "poll_interval_ms").map (·.toNat.toUInt64)).getD s.pollMillis
  tools := ((tableAt members "tools").map (Tools.written {})).getD s.tools

theorem Tools.assign_eq_ok {t : Tools}
    (hm : key ∈ ["extract_frame", "phash", "zkp", "ledger"] ∧ ∃ text, v = .text text)
    (hfresh : key ∉ rest.map Prod.fst) :
    ∃ t', t.assign (key, v) = .ok t' ∧ t'.written rest = t.written ((key, v) :: rest) := by
  obtain ⟨hkey, text, rfl⟩ := hm
  have hnone := lookup_eq_none_iff_not_mem.mpr hfresh
  simp only [List.mem_cons, List.not_mem_nil, or_false] at hkey
  rcases hkey with rfl | rfl | rfl | rfl
  all_goals exact ⟨_, rfl, by simp [written, textAt, List.lookup_cons, hnone]⟩

theorem Tools.ofValue_table {inner : List (String × Toml.Value)}
    (hkeys : (inner.map Prod.fst).Nodup)
    (hall : ∀ m ∈ inner, m.1 ∈ ["extract_frame", "phash", "zkp", "ledger"] ∧
      ∃ text, m.2 = .text text) :
    Tools.ofValue (.table inner) = .ok (Tools.written {} inner) :=
  foldlM_eq_ok (fun _ => rfl) Tools.assign_eq_ok hkeys hall

theorem asNatural_integer {n : Int} {bound : Nat} (hn : 0 ≤ n) (hbound : n < bound)
    (expected : String) : (Toml.Value.integer n).asNatural bound expected = .ok n.toNat := by
  rw [Toml.Value.asNatural, if_pos ⟨hn, hbound⟩]

theorem asWord_integer {n : Int} (hn : 0 ≤ n) (hword : n < UInt32.size) :
    (Toml.Value.integer n).asWord = .ok n.toNat.toUInt32 := by
  rw [Toml.Value.asWord, asNatural_integer hn hword]
  rfl

theorem asLongWord_integer {n : Int} (hn : 0 ≤ n) (hmax : n ≤ Toml.maxInteger) :
    (Toml.Value.integer n).asLongWord = .ok n.toNat.toUInt64 := by
  have hlong : n < UInt64.size := by
    rw [Toml.maxInteger] at hmax
    simp only [UInt64.size]
    omega
  rw [Toml.Value.asLongWord, asNatural_integer hn hlong]
  rfl

/-- A member of the nine writes its setting, and no other one. -/
theorem Settings.assign_eq_ok {s : Settings} (hm : Settings.Fits (key, v)) (hv : v.Proper)
    (hfresh : key ∉ rest.map Prod.fst) :
    ∃ s', s.assign (key, v) = .ok s' ∧ s'.written rest = s.written ((key, v) :: rest) := by
  obtain ⟨kind, hkind, hadmits⟩ := hm
  have hnone := lookup_eq_none_iff_not_mem.mpr hfresh
  simp only [Settings.kinds, List.mem_cons, Prod.mk.injEq, List.not_mem_nil, or_false] at hkind
  cases kind with
  | text =>
    simp only [reduceCtorEq, and_true, and_false, or_false, false_or] at hkind
    obtain ⟨text, rfl⟩ := hadmits
    rcases hkind with rfl | rfl | rfl | rfl | rfl
    all_goals exact ⟨_, rfl, by simp [written, textAt, integerAt, tableAt, List.lookup_cons, hnone]⟩
  | word =>
    simp only [reduceCtorEq, and_true, and_false, or_false, false_or] at hkind
    obtain ⟨n, rfl, hn, hword⟩ := hadmits
    rcases hkind with rfl | rfl
    all_goals
      refine ⟨_, by simp only [assign, asWord_integer hn hword]; rfl, ?_⟩
      simp [written, textAt, integerAt, tableAt, List.lookup_cons, hnone]
  | count =>
    simp only [reduceCtorEq, and_true, and_false, or_false, false_or] at hkind
    obtain ⟨n, rfl, hn⟩ := hadmits
    cases hv with
    | integer range =>
      subst hkind
      refine ⟨_, by simp only [assign, asLongWord_integer hn range.2]; rfl, ?_⟩
      simp [written, textAt, integerAt, tableAt, List.lookup_cons, hnone]
  | tools =>
    simp only [reduceCtorEq, and_true, and_false, false_or] at hkind
    obtain ⟨inner, rfl, hall⟩ := hadmits
    cases hv with
    | table keys _ =>
      subst hkind
      refine ⟨_, by simp only [assign, Tools.ofValue_table keys hall]; rfl, ?_⟩
      simp [written, textAt, integerAt, tableAt, List.lookup_cons, hnone]

theorem Settings.ofTable_eq_ok {home : Path} (hproper : (Toml.Value.table members).Proper)
    (hall : ∀ m ∈ members, Settings.Fits m) :
    Settings.ofTable home members = .ok ((Settings.ofHome home).written members) := by
  cases hproper with
  | table keys values =>
    refine foldlM_eq_ok (P := fun m => Settings.Fits m ∧ m.2.Proper) (fun _ => rfl) ?_ keys ?_
    · rintro s ⟨key, v⟩ rest ⟨hm, hv⟩ hfresh
      exact Settings.assign_eq_ok hm hv hfresh
    · exact fun m hm => ⟨hall m hm, values m hm⟩

/-! ## Only what fits is written -/

theorem admits_of_asText {expected text : String} (h : v.asText expected = .ok text) :
    Settings.Kind.text.Admits v := by
  cases v with
  | text t => exact ⟨t, rfl⟩
  | _ => cases h

theorem admits_of_asPath {p : Path} (h : v.asPath = .ok p) : Settings.Kind.text.Admits v := by
  obtain ⟨text, htext, -⟩ := map_eq_ok h
  exact admits_of_asText htext

theorem exists_of_asNatural {bound n : Nat} {expected : String}
    (h : v.asNatural bound expected = .ok n) : ∃ i : Int, v = .integer i ∧ 0 ≤ i ∧ i < bound := by
  cases v with
  | integer i =>
    rw [Toml.Value.asNatural] at h
    split at h
    · next hrange => exact ⟨i, rfl, hrange⟩
    · cases h
  | _ => cases h

theorem admits_of_asWord {w : UInt32} (h : v.asWord = .ok w) : Settings.Kind.word.Admits v := by
  obtain ⟨n, hn, -⟩ := map_eq_ok h
  obtain ⟨i, rfl, hlow, hhigh⟩ := exists_of_asNatural hn
  exact ⟨i, rfl, hlow, hhigh⟩

theorem admits_of_asLongWord {w : UInt64} (h : v.asLongWord = .ok w) :
    Settings.Kind.count.Admits v := by
  obtain ⟨n, hn, -⟩ := map_eq_ok h
  obtain ⟨i, rfl, hlow, -⟩ := exists_of_asNatural hn
  exact ⟨i, rfl, hlow⟩

theorem Tools.of_assign_eq_ok {t t' : Tools} (h : t.assign (key, v) = .ok t') :
    key ∈ ["extract_frame", "phash", "zkp", "ledger"] ∧ ∃ text, v = .text text := by
  unfold Tools.assign at h
  dsimp only at h
  split at h
  case h_5 => cases h
  all_goals
    obtain ⟨text, htext, -⟩ := exists_of_bind_eq_ok h
    exact ⟨by simp, admits_of_asText htext⟩

theorem Settings.fits_of_assign_eq_ok {s s' : Settings}
    (htools : key = "tools" → ∃ inner, v = .table inner) (h : s.assign (key, v) = .ok s') :
    Settings.Fits (key, v) := by
  unfold Settings.assign at h
  dsimp only at h
  split at h
  case h_10 => cases h
  all_goals obtain ⟨a, ha, -⟩ := exists_of_bind_eq_ok h
  case h_1 | h_2 | h_7 => exact ⟨.text, by simp [Settings.kinds], admits_of_asPath ha⟩
  case h_3 | h_4 => exact ⟨.text, by simp [Settings.kinds], admits_of_asText ha⟩
  case h_5 | h_6 => exact ⟨.word, by simp [Settings.kinds], admits_of_asWord ha⟩
  case h_8 => exact ⟨.count, by simp [Settings.kinds], admits_of_asLongWord ha⟩
  case h_9 =>
    obtain ⟨inner, rfl⟩ := htools rfl
    exact ⟨.tools, by simp [Settings.kinds], inner, rfl,
      forall_of_foldlM_eq_ok (fun _ _ => Tools.of_assign_eq_ok) ha⟩

theorem Settings.forall_fits_of_ofTable_eq_ok {home : Path} {s : Settings}
    (htools : ∀ v, ("tools", v) ∈ members → ∃ inner, v = .table inner)
    (h : Settings.ofTable home members = .ok s) : ∀ m ∈ members, Settings.Fits m := by
  refine forall_of_foldlM_eq_ok ?_ h
  rintro ⟨key, v⟩ hm s s' hassign
  refine Settings.fits_of_assign_eq_ok ?_ hassign
  rintro rfl
  exact htools v hm

end Assigning

/-! ## The settings of a text -/

section Texts

variable {home : Path} {text : String} {members : List (String × Toml.Value)}

theorem Tools.layers_written (members : List (String × Toml.Value)) :
    (Tools.written {} members).Layers members := ⟨rfl, rfl, rfl, rfl⟩

theorem Toml.mem_of_integerAt {key : String} {n : Int} (h : integerAt members key = some n) :
    (key, .integer n) ∈ members := by
  rw [integerAt] at h
  split at h
  · next hn =>
    cases h
    exact mem_of_lookup_eq_some hn
  · cases h

theorem toNat_wordAt (hall : ∀ m ∈ members, Settings.Fits m) {key : String}
    (hkey : key = "frame_offset" ∨ key = "frame_count") (default : UInt32) :
    ((((integerAt members key).map (·.toNat.toUInt32)).getD default).toNat : Int) =
      (integerAt members key).getD default.toNat := by
  cases hn : integerAt members key with
  | none => rfl
  | some n =>
    obtain ⟨kind, hkind, hadmits⟩ := hall _ (Toml.mem_of_integerAt hn)
    have hword : kind = .word := by
      rcases hkey with rfl | rfl <;> simpa [Settings.kinds] using hkind
    subst hword
    obtain ⟨i, hi, hlow, hhigh⟩ := hadmits
    cases hi
    have hlt : n.toNat < 2 ^ 32 := by
      simp only [UInt32.size] at hhigh
      omega
    simp only [Option.map_some, Option.getD_some, Nat.toUInt32_eq, UInt32.toNat_ofNat',
      Nat.mod_eq_of_lt hlt]
    omega

theorem toNat_countAt (hproper : (Toml.Value.table members).Proper)
    (hall : ∀ m ∈ members, Settings.Fits m) (default : UInt64) :
    ((((integerAt members "poll_interval_ms").map (·.toNat.toUInt64)).getD default).toNat : Int) =
      (integerAt members "poll_interval_ms").getD default.toNat := by
  cases hn : integerAt members "poll_interval_ms" with
  | none => rfl
  | some n =>
    have hmem := Toml.mem_of_integerAt hn
    obtain ⟨kind, hkind, hadmits⟩ := hall _ hmem
    have hcount : kind = .count := by simpa [Settings.kinds] using hkind
    subst hcount
    obtain ⟨i, hi, hlow⟩ := hadmits
    cases hi
    cases hproper with
    | table _ values =>
      cases values _ hmem with
      | integer range =>
        have hmax := range.2
        rw [Toml.maxInteger] at hmax
        have hlt : n.toNat < 2 ^ 64 := by omega
        simp only [Option.map_some, Option.getD_some, Nat.toUInt64_eq, UInt64.toNat_ofNat',
          Nat.mod_eq_of_lt hlt]
        omega

theorem Settings.layers_written (hproper : (Toml.Value.table members).Proper)
    (hall : ∀ m ∈ members, Settings.Fits m) :
    ((ofHome home).written members).Layers home members where
  workDir := rfl
  toolDir := by simp [written, ofHome]
  signer := rfl
  reward := rfl
  frameOffset := toNat_wordAt hall (.inl rfl) 0
  frameCount := toNat_wordAt hall (.inr rfl) 300
  parameterFile := by simp [written, ofHome]
  pollMillis := toNat_countAt hproper hall 100
  tools := by
    simp only [written]
    cases tableAt members "tools" with
    | none => exact Tools.layers_written []
    | some inner => exact Tools.layers_written inner

theorem Settings.parse_eq_ok (hparse : Toml.parse? text = some members)
    (hall : ∀ m ∈ members, Settings.Fits m) :
    Settings.parse home text = .ok ((ofHome home).written members) := by
  rw [Settings.parse, hparse]
  exact Settings.ofTable_eq_ok (Toml.proper_of_parse? hparse) hall

theorem Settings.parse_eq_error (hparse : Toml.parse? text = some members)
    (htools : ∀ v, ("tools", v) ∈ members → ∃ inner, v = .table inner)
    (hnot : ¬ ∀ m ∈ members, Settings.Fits m) :
    ∃ fault, Settings.parse home text = .error fault := by
  rw [Settings.parse, hparse]
  cases h : Settings.ofTable home members with
  | error fault => exact ⟨fault, h⟩
  | ok s => exact absurd (Settings.forall_fits_of_ofTable_eq_ok htools h) hnot

theorem SettingsFault.exists_failure (source : Option Path) (fault : SettingsFault) :
    ∃ message, fault.failure source = .config message := by
  cases source with
  | none => exact ⟨_, rfl⟩
  | some p => exact ⟨_, rfl⟩

theorem Settings.load_eq {p : Path} {fs : FileSystem}
    (hfile : fs.read p = .ok (Utf8.ofString text)) :
    Settings.load home p fs =
      (Settings.parse home text).mapError (SettingsFault.failure (some p)) := by
  have hread : Settings.readText p fs = .ok text := by
    simp only [Settings.readText, hfile, Utf8.toString?_ofString]
  rw [Settings.load, hread]
  cases hparse : Settings.parse home text <;> simp only [hparse, bind, Except.bind] <;> rfl

end Texts

/-! ## The settings of a request -/

namespace Settings

variable {s : Settings}

structure IsRunnable (s : Settings) : Prop where
  frameCount : 0 < s.frameCount.toNat
  pollMillis : 0 < s.pollMillis.toNat
  signer : ∃ c ∈ s.signer.toList, Text.isBlank c = false
  reward : ∃ c ∈ s.reward.toList, Text.isBlank c = false

theorem isAllBlank_eq_false_iff {text : String} :
    Text.isAllBlank text = false ↔ ∃ c ∈ text.toList, Text.isBlank c = false := by
  rw [Text.isAllBlank, List.all_eq_false]
  simp

theorem isRunnable_iff : s.IsRunnable ↔
    s.frameCount ≠ 0 ∧ Text.isAllBlank s.signer = false ∧ Text.isAllBlank s.reward = false ∧
      s.pollMillis ≠ 0 := by
  rw [isAllBlank_eq_false_iff, isAllBlank_eq_false_iff, Ne, Ne, ← UInt32.toNat_inj,
    ← UInt64.toNat_inj]
  constructor
  · rintro ⟨hframes, hpoll, hsigner, hreward⟩
    exact ⟨by simpa using Nat.ne_of_gt hframes, hsigner, hreward, by simpa using Nat.ne_of_gt hpoll⟩
  · rintro ⟨hframes, hsigner, hreward, hpoll⟩
    exact ⟨Nat.pos_of_ne_zero hframes, Nat.pos_of_ne_zero hpoll, hsigner, hreward⟩

theorem validate_eq_ok (h : s.IsRunnable) : s.validate = .ok () := by
  obtain ⟨hframes, hsigner, hreward, hpoll⟩ := isRunnable_iff.mp h
  simp [validate, hframes, hsigner, hreward, hpoll]

theorem validate_eq_error (h : ¬ s.IsRunnable) :
    ∃ message, s.validate = .error (.config message) := by
  unfold validate
  split
  · exact ⟨_, rfl⟩
  split
  · exact ⟨_, rfl⟩
  split
  · exact ⟨_, rfl⟩
  split
  · exact ⟨_, rfl⟩
  · next hframes hsigner hreward hpoll =>
    exact absurd (isRunnable_iff.mpr ⟨hframes, by simpa using hsigner, by simpa using hreward,
      hpoll⟩) h

end Settings

namespace CommandLine.Request

theorem effectiveSettings_eq {r : Request} {home p : Path} {fs : FileSystem} {text : String}
    {s : Settings} (hfile : r.settings = some p) (hread : fs.read p = .ok (Utf8.ofString text))
    (hparse : Settings.parse home text = .ok s) :
    r.effectiveSettings home fs =
      match (s.overriddenBy r.workDir r.toolDir r.signer).validate with
      | .error e => .error ⟨"invalid configuration", e⟩
      | .ok () => .ok (s.overriddenBy r.workDir r.toolDir r.signer) := by
  simp only [effectiveSettings, hfile, Settings.load_eq hread, hparse]
  rfl

/-- A document in which the tools, if it has any, are a table gives settings if and only if each
of its keys is one of the nine with a value of its kind. Every setting is then the one that the
document has, or else its default, and a request with a file of that text gets exactly these with
what it replaces, if and only if a run can be started with what there is then. The place of the
proving parameters follows the working directory as it is then. Every other document is refused as
bad settings. -/
theorem settings_layered (home : Path) {text : String} {members : List (String × Toml.Value)}
    (hparse : Toml.parse? text = some members)
    (htools : ∀ v, ("tools", v) ∈ members → ∃ inner, v = .table inner) :
    ((∀ m ∈ members, Settings.Fits m) → ∃ s, Settings.parse home text = .ok s ∧
      s.Layers home members ∧ ∀ (r : Request) (p : Path) (fs : FileSystem), r.settings = some p →
        fs.read p = .ok (Utf8.ofString text) → ∃ final : Settings,
          final = { s with
            workDir := r.workDir.getD s.workDir
            toolDir := r.toolDir.or s.toolDir
            signer := r.signer.getD s.signer } ∧
          final.parameters = ((textAt members "crs_file").map Path.mk).getD
            (final.workDir.join "zkpor_crs.dat") ∧
          (final.IsRunnable → r.effectiveSettings home fs = .ok final) ∧
          (¬ final.IsRunnable → ∃ message, r.effectiveSettings home fs =
            .error ⟨"invalid configuration", .config message⟩)) ∧
    ((¬ ∀ m ∈ members, Settings.Fits m) → ∃ fault, Settings.parse home text = .error fault ∧
      (∃ message, fault.failure none = .config message) ∧
      ∀ (r : Request) (p : Path) (fs : FileSystem), r.settings = some p →
        fs.read p = .ok (Utf8.ofString text) → ∃ message, r.effectiveSettings home fs =
          .error ⟨s!"loading config {p.text}", .config message⟩) := by
  constructor
  · intro hall
    have hlayers : ((Settings.ofHome home).written members).Layers home members :=
      Settings.layers_written (Toml.proper_of_parse? hparse) hall
    have hparsed : Settings.parse home text = .ok ((Settings.ofHome home).written members) :=
      Settings.parse_eq_ok hparse hall
    refine ⟨_, hparsed, hlayers, ?_⟩
    intro r p fs hfile hread
    have heffective := effectiveSettings_eq hfile hread hparsed
    refine ⟨_, rfl, ?_, ?_, ?_⟩
    · rw [Settings.parameters, hlayers.parameterFile]
      rfl
    · intro hrunnable
      rw [heffective]
      simp only [Settings.overriddenBy, Settings.validate_eq_ok hrunnable]
    · intro hnot
      obtain ⟨message, hmessage⟩ := Settings.validate_eq_error hnot
      refine ⟨message, ?_⟩
      rw [heffective]
      simp only [Settings.overriddenBy, hmessage]
  · intro hnot
    obtain ⟨fault, hfault⟩ : ∃ fault, Settings.parse home text = .error fault :=
      Settings.parse_eq_error hparse htools hnot
    refine ⟨fault, hfault, fault.exists_failure none, ?_⟩
    intro r p fs hfile hread
    obtain ⟨message, hmessage⟩ := fault.exists_failure (some p)
    refine ⟨message, ?_⟩
    simp only [effectiveSettings, hfile, Settings.load_eq hread, hfault, Except.mapError, hmessage]

/-- A document that no run can be started with unless somebody else signs. -/
def unsigned : String := "signer = \"\"\ntools.zkp = 'z'\nframe_count = 7\n"

def unsignedMembers : List (String × Toml.Value) :=
  [("signer", .text ""), ("tools", .table [("zkp", .text "z")]), ("frame_count", .integer 7)]

theorem parse?_unsigned : Toml.parse? unsigned = some unsignedMembers := by
  -- equality of values is not decidable by itself, and so keys and texts are compared
  have hkeys : (Toml.parse? unsigned).map (·.map Prod.fst) =
      some ["signer", "tools", "frame_count"] := by decide +kernel
  have hsigner : (Toml.parse? unsigned).bind (textAt · "signer") = some "" := by decide +kernel
  have hframes : (Toml.parse? unsigned).bind (integerAt · "frame_count") = some 7 := by
    decide +kernel
  have htools : ((Toml.parse? unsigned).bind (tableAt · "tools")).map (·.map Prod.fst) =
      some ["zkp"] := by decide +kernel
  have hzkp : ((Toml.parse? unsigned).bind (tableAt · "tools")).bind (textAt · "zkp") =
      some "z" := by decide +kernel
  obtain ⟨members, hparse, hmembers⟩ := Option.map_eq_some_iff.mp hkeys
  rw [hparse] at hsigner hframes htools hzkp
  obtain ⟨inner, hinner, hinnerKeys⟩ := Option.map_eq_some_iff.mp htools
  rw [hinner] at hzkp
  simp only [List.map_eq_cons_iff, List.map_eq_nil_iff] at hmembers hinnerKeys
  obtain ⟨⟨_, a⟩, _, rfl, rfl, ⟨_, b⟩, _, rfl, rfl, ⟨_, c⟩, _, rfl, rfl, rfl⟩ := hmembers
  obtain ⟨⟨_, d⟩, _, rfl, rfl, rfl⟩ := hinnerKeys
  rw [hparse, unsignedMembers]
  simp_all [Toml.textAt_eq_some_iff, Toml.integerAt_eq_some_iff, Toml.tableAt_eq_some_iff,
    List.lookup_cons]

/-- A request with that document, another directory and somebody who signs. -/
def signing : Request where
  settings := some ⟨"/c.toml"⟩
  workDir := some ⟨"/w"⟩
  signer := some "alice"
  command := .errand (.setup false)

def signingFiles : FileSystem :=
  FileSystem.empty.put ["c.toml"] (.file (Utf8.ofString unsigned) false none)

theorem settings_layered_unsigned :
    Toml.parse? unsigned = some unsignedMembers ∧
    (∀ v, ("tools", v) ∈ unsignedMembers → ∃ inner, v = .table inner) ∧
    ∃ s final : Settings, Settings.parse ⟨"/home"⟩ unsigned = .ok s ∧ ¬ s.IsRunnable ∧
      signing.effectiveSettings ⟨"/home"⟩ signingFiles = .ok final ∧ final.signer = "alice" ∧
      final.parameters = ⟨"/w/zkpor_crs.dat"⟩ ∧ final.tools.zkp = "z" ∧
      final.tools.phash = "rust-phash" := by
  have htools : ∀ v, ("tools", v) ∈ unsignedMembers → ∃ inner, v = .table inner := by
    simp [unsignedMembers]
  have hfits : ∀ m ∈ unsignedMembers, Settings.Fits m := by
    simp [unsignedMembers, Settings.Fits, Settings.kinds, Settings.Kind.Admits]
  obtain ⟨s, hs, hlayers, hrequest⟩ := (settings_layered ⟨"/home"⟩ parse?_unsigned htools).1 hfits
  obtain ⟨final, hfinal, hparameters, heffective, -⟩ :=
    hrequest signing ⟨"/c.toml"⟩ signingFiles rfl (by decide +kernel)
  have hframes : (s.frameCount.toNat : Int) = 7 := hlayers.frameCount
  have hpoll : (s.pollMillis.toNat : Int) = 100 := hlayers.pollMillis
  have hsigner : s.signer = "" := hlayers.signer
  have hreward : s.reward = "1vid" := hlayers.reward
  have hworkDir : final.workDir = ⟨"/w"⟩ := by
    rw [hfinal]
    rfl
  have hsigns : final.signer = "alice" := by
    rw [hfinal]
    rfl
  have hrunnable : final.IsRunnable := by
    refine ⟨?_, ?_, ⟨'a', ?_, by decide⟩, '1', ?_, by decide⟩
    · rw [hfinal]
      show 0 < s.frameCount.toNat
      omega
    · rw [hfinal]
      show 0 < s.pollMillis.toNat
      omega
    · rw [hsigns]
      decide
    · rw [hfinal]
      show '1' ∈ s.reward.toList
      rw [hreward]
      decide
  refine ⟨parse?_unsigned, htools, s, final, hs, ?_, heffective hrunnable, hsigns, ?_, ?_, ?_⟩
  · rintro ⟨-, -, ⟨c, hc, -⟩, -⟩
    rw [hsigner] at hc
    cases hc
  · rw [hparameters, hworkDir]
    decide +kernel
  · rw [hfinal]
    exact hlayers.tools.zkp
  · rw [hfinal]
    exact hlayers.tools.phash

/-- The same settings, whichever way the table is written. -/
example : ["reward = '2'\n[tools]\nzkp = \"z\"", "tools.zkp = 'z'\nreward = \"2\"",
    "tools = \x7b zkp = 'z' \x7d\nreward = '2'"].map (Settings.parse ⟨"/home"⟩ ·) =
      List.replicate 3 (.ok { Settings.ofHome ⟨"/home"⟩ with
        reward := "2", tools := { zkp := "z" } }) := by
  decide +kernel

end CommandLine.Request

end StorageProof
