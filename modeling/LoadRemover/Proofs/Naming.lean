import Mathlib.Data.List.Chain
import LoadRemover.Proofs.Triple
import LoadRemover.Windows.Platform
import LoadRemover.Windows.Simulation

/-!
# The names in a listing

A text in 16-bit units is cut into pieces: characters, and surrogates without a partner (`Utf16.Cuts`). Every text has
such a cut (`Utf16.exists_cuts`), and reading it gives the characters of the cut with one replacement character for
each lone surrogate, however the text was cut (`Utf16.decode_of_cuts`).

A listing fills one record again and again. `Api.Lists` is what is assumed of the functions for it. All that is left in
the record by a longer name comes behind a zero (`ProcessEntry.filled`), so it does not show.
-/

namespace LoadRemover

namespace Utf16

/-! ### Pieces of a text -/

/-- A character, or a surrogate without its partner. -/
inductive Piece where
  | character (c : Char)
  | lone (u : UInt16) (surrogate : isHigh u = true ∨ isLow u = true)

namespace Piece

def units : Piece → List UInt16
  | character c => encodeChar c
  | lone u _ => [u]

/-- What is read for the piece. -/
def shown : Piece → Char
  | character c => c
  | lone _ _ => replacement

def IsLoneHigh : Piece → Prop
  | character _ => False
  | lone u _ => isHigh u = true

def IsLoneLow : Piece → Prop
  | character _ => False
  | lone u _ => isLow u = true

end Piece

/-- The pieces of a text, where no two lone surrogates that follow each other are partners. -/
structure Cuts (units : List UInt16) (pieces : List Piece) : Prop where
  units : units = pieces.flatMap Piece.units
  lone : pieces.IsChain fun p q => ¬ (p.IsLoneHigh ∧ q.IsLoneLow)

section Units

variable {u v : UInt16} {c : Char} {rest : List UInt16}

private theorem isHigh_iff : isHigh u = true ↔ 0xD800 ≤ u.toNat ∧ u.toNat < 0xDC00 := by
  unfold isHigh
  rw [Bool.and_eq_true, decide_eq_true_iff, decide_eq_true_iff, UInt16.le_iff_toNat_le, UInt16.lt_iff_toNat_lt]
  rfl

private theorem isLow_iff : isLow u = true ↔ 0xDC00 ≤ u.toNat ∧ u.toNat < 0xE000 := by
  unfold isLow
  rw [Bool.and_eq_true, decide_eq_true_iff, decide_eq_true_iff, UInt16.le_iff_toNat_le, UInt16.lt_iff_toNat_lt]
  rfl

private theorem decode_cons_of_not_high (h : ¬ isHigh u = true) (rest : List UInt16) :
    decode (u :: rest) = single u :: decode rest := by
  cases rest with
  | nil => rfl
  | cons v rest => rw [decode, if_neg fun hpair => h (Bool.and_eq_true _ _ ▸ hpair).1]

private theorem decode_cons_of_not_low (h : ∀ v ∈ rest.head?, ¬ isLow v = true) :
    decode (u :: rest) = single u :: decode rest := by
  cases rest with
  | nil => rfl
  | cons v rest => rw [decode, if_neg fun hpair => h v rfl (Bool.and_eq_true _ _ ▸ hpair).2]

private theorem decode_pair (hu : isHigh u = true) (hv : isLow v = true) (rest : List UInt16) :
    decode (u :: v :: rest) = pair u v :: decode rest := by
  rw [decode, if_pos (by rw [hu, hv]; rfl)]

private theorem single_of_surrogate (h : isHigh u = true ∨ isLow u = true) : single u = replacement := by
  unfold single
  rcases h with h | h <;> simp [h]

end Units

/-! ### Characters -/

section Characters

variable {u v : UInt16} {c : Char}

private theorem toNat_ofNat {n : Nat} (h : n.isValidChar) : (Char.ofNat n).toNat = n := by
  rw [Char.ofNat, dif_pos h]
  rfl

private theorem encodeChar_of_lt (h : c.toNat < 0x10000) (hu : u.toNat = c.toNat) : encodeChar c = [u] := by
  rw [encodeChar, if_pos h, ← hu, UInt16.ofNat_toNat]

private theorem encodeChar_of_le (h : 0x10000 ≤ c.toNat) (hu : u.toNat = 0xD800 + (c.toNat - 0x10000) / 0x400)
    (hv : v.toNat = 0xDC00 + (c.toNat - 0x10000) % 0x400) : encodeChar c = [u, v] := by
  rw [encodeChar, if_neg (Nat.not_lt.2 h), ← hu, ← hv, UInt16.ofNat_toNat, UInt16.ofNat_toNat]

/-- A character is one unit that is no surrogate, or a pair of partners. -/
private theorem encodeChar_cases (c : Char) :
    (∃ u, encodeChar c = [u] ∧ ¬ isHigh u = true ∧ ¬ isLow u = true ∧ single u = c) ∨
      ∃ u v, encodeChar c = [u, v] ∧ isHigh u = true ∧ isLow v = true ∧ pair u v = c := by
  have hvalid : c.toNat < 0xD800 ∨ 0xDFFF < c.toNat ∧ c.toNat < 0x110000 := c.valid
  by_cases h : c.toNat < 0x10000
  · left
    have hu : (UInt16.ofNat c.toNat).toNat = c.toNat := UInt16.toNat_ofNat_of_lt' h
    have hhigh : ¬ isHigh (UInt16.ofNat c.toNat) = true := by
      rw [isHigh_iff, hu]
      omega
    have hlow : ¬ isLow (UInt16.ofNat c.toNat) = true := by
      rw [isLow_iff, hu]
      omega
    refine ⟨_, encodeChar_of_lt h hu, hhigh, hlow, ?_⟩
    rw [single, if_neg (by rw [Bool.or_eq_true]; exact not_or.2 ⟨hhigh, hlow⟩), hu, Char.ofNat_toNat]
  · right
    have hu : (UInt16.ofNat (0xD800 + (c.toNat - 0x10000) / 0x400)).toNat = 0xD800 + (c.toNat - 0x10000) / 0x400 :=
      UInt16.toNat_ofNat_of_lt' (show _ < 2 ^ 16 by omega)
    have hv : (UInt16.ofNat (0xDC00 + (c.toNat - 0x10000) % 0x400)).toNat = 0xDC00 + (c.toNat - 0x10000) % 0x400 :=
      UInt16.toNat_ofNat_of_lt' (show _ < 2 ^ 16 by omega)
    refine ⟨_, _, encodeChar_of_le (Nat.not_lt.1 h) hu hv, ?_, ?_, ?_⟩
    · rw [isHigh_iff, hu]
      omega
    · rw [isLow_iff, hv]
      omega
    · have hsum : 0x10000 + (0xD800 + (c.toNat - 0x10000) / 0x400 - 0xD800) * 0x400 +
          (0xDC00 + (c.toNat - 0x10000) % 0x400 - 0xDC00) = c.toNat := by omega
      rw [pair, hu, hv, hsum, Char.ofNat_toNat]

private theorem exists_character_of_single (hhigh : ¬ isHigh u = true) (hlow : ¬ isLow u = true) :
    ∃ c, encodeChar c = [u] := by
  have hlt : u.toNat < 0x10000 := u.toNat_lt
  rw [isHigh_iff] at hhigh
  rw [isLow_iff] at hlow
  have hvalid : u.toNat.isValidChar := by
    rw [Nat.isValidChar]
    omega
  have hc := toNat_ofNat hvalid
  exact ⟨Char.ofNat u.toNat, encodeChar_of_lt (lt_of_eq_of_lt hc hlt) hc.symm⟩

private theorem exists_character_of_pair (hu : isHigh u = true) (hv : isLow v = true) : ∃ c, encodeChar c = [u, v] := by
  rw [isHigh_iff] at hu
  rw [isLow_iff] at hv
  have hvalid : (0x10000 + (u.toNat - 0xD800) * 0x400 + (v.toNat - 0xDC00)).isValidChar := by
    rw [Nat.isValidChar]
    omega
  obtain ⟨c, hc⟩ : ∃ c : Char, c.toNat = _ := ⟨_, toNat_ofNat hvalid⟩
  exact ⟨c, encodeChar_of_le (by omega) (by omega) (by omega)⟩

end Characters

/-! ### Reading what was cut -/

section Reading

variable {u : UInt16} {units : List UInt16} {p : Piece} {pieces : List Piece}

private theorem Piece.units_ne_nil (p : Piece) : p.units ≠ [] := by
  cases p with
  | character c =>
    rcases encodeChar_cases c with ⟨u, hunits, -⟩ | ⟨u, v, hunits, -⟩
    · rw [Piece.units, hunits]
      exact List.cons_ne_nil u []
    · rw [Piece.units, hunits]
      exact List.cons_ne_nil u [v]
  | lone u h => exact List.cons_ne_nil u []

/-- Only a piece that is a lone low surrogate begins with a low surrogate. -/
private theorem Piece.isLoneLow_of_head (h : u ∈ p.units.head?) (hlow : isLow u = true) : p.IsLoneLow := by
  cases p with
  | character c =>
    rcases encodeChar_cases c with ⟨v, hunits, -, hv, -⟩ | ⟨v, w, hunits, hv, -⟩
    · rw [Piece.units, hunits] at h
      exact absurd (Option.some.inj h ▸ hlow) hv
    · rw [Piece.units, hunits] at h
      rw [Option.some.inj h, isHigh_iff] at hv
      rw [isLow_iff] at hlow
      omega
  | lone v hv => exact Option.some.inj h ▸ hlow

private theorem Piece.IsLoneLow.isLow_head (hp : p.IsLoneLow) (h : u ∈ p.units.head?) : isLow u = true := by
  cases p with
  | character c => exact hp.elim
  | lone v hv => exact Option.some.inj h ▸ hp

private theorem head?_flatMap_units (p : Piece) (pieces : List Piece) :
    ((p :: pieces).flatMap Piece.units).head? = p.units.head? := by
  rw [List.flatMap_cons]
  exact List.head?_append_of_ne_nil _ p.units_ne_nil

/-- Reading goes piece by piece. -/
private theorem decode_of_cuts (h : Cuts units pieces) : decode units = pieces.map Piece.shown := by
  obtain ⟨rfl, hlone⟩ := h
  induction pieces with
  | nil => rfl
  | cons p pieces ih =>
    obtain ⟨hfirst, hrest⟩ := List.isChain_cons.1 hlone
    rw [List.flatMap_cons, List.map_cons, ← ih hrest]
    cases p with
    | character c =>
      rcases encodeChar_cases c with ⟨u, hunits, hhigh, -, hread⟩ | ⟨u, v, hunits, hu, hv, hread⟩
      · rw [Piece.units, hunits, List.singleton_append, decode_cons_of_not_high hhigh, hread]
        rfl
      · rw [Piece.units, hunits]
        change decode (u :: v :: _) = _
        rw [decode_pair hu hv, hread]
        rfl
    | lone u hu =>
      have hsingle : decode (u :: pieces.flatMap Piece.units) = single u :: decode (pieces.flatMap Piece.units) := by
        by_cases hhigh : isHigh u = true
        · refine decode_cons_of_not_low fun v hv hlow => ?_
          cases pieces with
          | nil => cases hv
          | cons q pieces =>
            rw [head?_flatMap_units] at hv
            exact hfirst q rfl ⟨hhigh, Piece.isLoneLow_of_head hv hlow⟩
        · exact decode_cons_of_not_high hhigh _
      rw [Piece.units, List.singleton_append, hsingle, single_of_surrogate hu]
      rfl

/-- A unit by itself is a piece. -/
private theorem exists_piece (u : UInt16) : ∃ p : Piece, p.units = [u] ∧ (p.IsLoneHigh → isHigh u = true) := by
  by_cases h : isHigh u = true ∨ isLow u = true
  · exact ⟨.lone u h, rfl, id⟩
  · obtain ⟨hhigh, hlow⟩ := not_or.1 h
    obtain ⟨c, hc⟩ := exists_character_of_single hhigh hlow
    exact ⟨.character c, hc, False.elim⟩

private theorem exists_cuts (units : List UInt16) : ∃ pieces, Cuts units pieces := by
  induction units using decode.induct with
  | case1 => exact ⟨[], rfl, .nil⟩
  | case2 u =>
    obtain ⟨p, hp, -⟩ := exists_piece u
    exact ⟨[p], by simp [hp], .singleton p⟩
  | case3 u v rest hpair ih =>
    rw [Bool.and_eq_true] at hpair
    obtain ⟨c, hc⟩ := exists_character_of_pair hpair.1 hpair.2
    obtain ⟨pieces, hunits, hlone⟩ := ih
    refine ⟨.character c :: pieces, ?_, List.isChain_cons.2 ⟨fun _ _ h => h.1, hlone⟩⟩
    rw [List.flatMap_cons, Piece.units, hc, ← hunits]
    rfl
  | case4 u v rest hpair ih =>
    obtain ⟨p, hp, hhigh⟩ := exists_piece u
    obtain ⟨pieces, hunits, hlone⟩ := ih
    refine ⟨p :: pieces, ?_, List.isChain_cons.2 ⟨fun q hq h => ?_, hlone⟩⟩
    · rw [List.flatMap_cons, hp, ← hunits]
      rfl
    · cases pieces with
      | nil => cases hq
      | cons q' pieces =>
        obtain rfl := Option.some.inj hq
        have hv : v ∈ q'.units.head? := by
          rw [← head?_flatMap_units q' pieces, ← hunits]
          rfl
        exact hpair (Bool.and_eq_true_iff.2 ⟨hhigh h.1, h.2.isLow_head hv⟩)

private theorem cuts_encode (cs : List Char) : Cuts (encode cs) (cs.map .character) where
  units := by rw [List.flatMap_map]; rfl
  lone := (List.isChain_map _).2 (List.pairwise_of_forall fun _ _ h => h.1).isChain

private theorem decode_encode (cs : List Char) : decode (encode cs) = cs := by
  rw [decode_of_cuts (cuts_encode cs), List.map_map]
  exact List.map_id cs

/-- Only the zero character has a zero among its units. -/
private theorem zero_mem_encodeChar {c : Char} : 0 ∈ encodeChar c ↔ c = '\x00' := by
  rcases encodeChar_cases c with ⟨u, hunits, -, -, hread⟩ | ⟨u, v, hunits, hu, hv, hread⟩
  · rw [hunits, List.mem_singleton]
    constructor
    · rintro rfl
      exact hread.symm
    · rintro rfl
      exact List.singleton_inj.1 hunits
  · rw [hunits]
    constructor
    · intro h
      rcases List.mem_pair.1 h with rfl | rfl
      · cases hu
      · cases hv
    · rintro rfl
      cases hunits

private theorem zero_mem_encode {cs : List Char} : 0 ∈ encode cs ↔ '\x00' ∈ cs := by
  simp [encode, zero_mem_encodeChar]

end Reading

end Utf16

namespace Windows

open Utf16

/-! ### The record that is filled -/

/-- A process as the system knows it: its number, and its name up to the zero that ends it, or the zeroless 260 units
that the record has room for. -/
structure ListedProcess where
  pid : UInt32
  units : List UInt16
  nonzero : 0 ∉ units
  fits : units.length ≤ 260

/-- A process with a name in Unicode. -/
def ListedProcess.named (pid : UInt32) (name : String) (nonzero : '\x00' ∉ name.toList)
    (fits : (encode name.toList).length ≤ 260) : ListedProcess :=
  ⟨pid, encode name.toList, fun h => nonzero (zero_mem_encode.1 h), fits⟩

/-- What a listing shows of a process. -/
structure ListedProcess.ShownAs (process : ListedProcess) (info : ProcessInfo) : Prop where
  pid : info.pid = process.pid
  text : ∀ name : String, process.units = encode name.toList → info.name = name
  /-- However the name is cut into characters and lone surrogates. -/
  pieces : ∀ pieces, Cuts process.units pieces → info.name = String.ofList (pieces.map Piece.shown)

/-- The record with a process written into it: the units of its name and, if there is room, a zero. The units behind
are left as they were. -/
def ProcessEntry.filled (entry : ProcessEntry) (process : ListedProcess) : ProcessEntry where
  pid := process.pid
  name := process.units ++
    if process.units.length < 260 then 0 :: entry.name.drop (process.units.length + 1) else []

section Records

variable {entry : ProcessEntry}

private theorem length_filled (h : entry.name.length = 260) (process : ListedProcess) :
    (entry.filled process).name.length = 260 := by
  have hfits := process.fits
  unfold ProcessEntry.filled
  rw [List.length_append]
  split
  · rw [List.length_cons, List.length_drop, h]
    omega
  · rw [List.length_nil]
    omega

/-- What is left in the record from other names does not show. -/
private theorem info_filled (entry : ProcessEntry) (process : ListedProcess) :
    (entry.filled process).info = ⟨process.pid, String.ofList (decode process.units)⟩ := by
  have hname : (entry.filled process).name.takeWhile (· != 0) = process.units := by
    have hall : ∀ u ∈ process.units, (u != 0) = true :=
      fun u hu => bne_iff_ne.2 fun hzero => process.nonzero (hzero ▸ hu)
    unfold ProcessEntry.filled
    rw [List.takeWhile_append_of_pos hall]
    split
    · simp
    · simp
  rw [ProcessEntry.info, textOf, hname]
  rfl

end Records

/-! ### The functions for listings -/

variable {σ : Type}

namespace Api

/-- The next calls fill the record with these processes, one after the other, and then there are no more. -/
def ListsNext (api : Api σ) (snapshot : Handle) : List ListedProcess → σ → Prop
  | [], w => ∀ entry : ProcessEntry, entry.name.length = 260 →
    ∃ reason w', (api.nextProcess snapshot entry).run w = (.error reason, w')
  | process :: rest, w => ∀ entry : ProcessEntry, entry.name.length = 260 →
    ∃ w', (api.nextProcess snapshot entry).run w = (.ok (entry.filled process), w') ∧ api.ListsNext snapshot rest w'

/-- The snapshot shows these processes. -/
def Lists (api : Api σ) (snapshot : Handle) : List ListedProcess → σ → Prop
  | [], w => ∀ entry : ProcessEntry, entry.name.length = 260 →
    ∃ reason w', (api.firstProcess snapshot entry).run w = (.error reason, w')
  | process :: rest, w => ∀ entry : ProcessEntry, entry.name.length = 260 →
    ∃ w', (api.firstProcess snapshot entry).run w = (.ok (entry.filled process), w') ∧ api.ListsNext snapshot rest w'

end Api

def ListedProcess.info (process : ListedProcess) : ProcessInfo := ⟨process.pid, String.ofList (decode process.units)⟩

private theorem ListedProcess.shownAs_info (process : ListedProcess) : process.ShownAs process.info where
  pid := rfl
  text name h := by
    have hread : process.info.name = String.ofList (decode process.units) := rfl
    rw [hread, h, decode_encode, String.ofList_toList]
  pieces pieces h := congrArg String.ofList (decode_of_cuts h)

section Listings

variable {api : Api σ} {limit : Nat} {snapshot : Handle} {processes : List ListedProcess} {entry : ProcessEntry}
  {s : Traced σ}

private theorem following_eq (h : api.ListsNext snapshot processes s.world) (hentry : entry.name.length = 260) {n : Nat}
    (hn : processes.length < n) : (api.following snapshot n entry s).1 = processes.map ListedProcess.info := by
  induction processes generalizing entry s n with
  | nil =>
    obtain ⟨n, rfl⟩ := Nat.exists_eq_add_one_of_ne_zero (Nat.ne_of_gt hn)
    obtain ⟨reason, w', hnext⟩ := h entry hentry
    unfold Api.following
    rw [Action.bind_apply, call, Action.onWorld_apply, hnext]
    rfl
  | cons process rest ih =>
    obtain ⟨n, rfl⟩ := Nat.exists_eq_add_one_of_ne_zero (Nat.ne_zero_of_lt hn)
    obtain ⟨w', hnext, hrest⟩ := h entry hentry
    unfold Api.following
    rw [Action.bind_apply, call, Action.onWorld_apply, hnext]
    have hworld : api.ListsNext snapshot rest (⟨w', s.log⟩ : Traced σ).world := hrest
    rw [List.map_cons, ← ih hworld (length_filled hentry process) (Nat.lt_of_succ_lt_succ hn)]
    exact congrArg (· :: _) (info_filled entry process)

private theorem enumerate_eq (h : api.Lists snapshot processes s.world) (hlimit : processes.length ≤ limit) :
    (api.enumerate limit snapshot s).1 = processes.map ListedProcess.info := by
  have hempty : ({} : ProcessEntry).name.length = 260 := List.length_replicate
  unfold Api.enumerate
  cases processes with
  | nil =>
    obtain ⟨reason, w', hfirst⟩ := h {} hempty
    rw [Action.bind_apply, call, Action.onWorld_apply, hfirst]
    rfl
  | cons process rest =>
    obtain ⟨w', hfirst, hrest⟩ := h {} hempty
    rw [Action.bind_apply, call, Action.onWorld_apply, hfirst]
    have hworld : api.ListsNext snapshot rest (⟨w', s.log⟩ : Traced σ).world := hrest
    rw [List.map_cons, ← following_eq hworld (length_filled hempty process) hlimit]
    exact congrArg (· :: _) (info_filled {} process)

private theorem outcome_processes {w : σ}
    (hsnapshot : (api.createSnapshot snapshotProcesses 0).run s.world = (.ok snapshot, w))
    (hlists : api.Lists snapshot processes w) (hlimit : processes.length ≤ limit) :
    ((platform api limit).processes.outcome s).1 = .ok (processes.map ListedProcess.info) := by
  have hopened : (callOr (api.createSnapshot snapshotProcesses 0) .listing).outcome s = (.ok snapshot, ⟨w, s.log⟩) := by
    change (call _ >>= _) s = _
    rw [Action.bind_apply, call, Action.onWorld_apply, hsnapshot]
    rfl
  have hworld : api.Lists snapshot processes (⟨w, s.log⟩ : Traced σ).world := hlists
  change ((Api.processes api limit).outcome s).1 = _
  unfold Api.processes
  rw [Attempt.outcome_bind, Action.bind_apply, hopened, ← enumerate_eq hworld hlimit]
  rfl

end Listings

/-! ### The simulated functions -/

namespace Simulation

variable {m : Machine} {snapshot : Handle} {entry : ProcessEntry} {position : Nat}

/-- The process shows as this one in a listing. -/
structure SimulatedProcess.ShowsAs (p : SimulatedProcess) (process : ListedProcess) : Prop where
  pid : p.pid = process.pid
  name : p.name = process.units

private theorem filled_eq {p : SimulatedProcess} {process : ListedProcess} (hshows : p.ShowsAs process)
    (hentry : entry.name.length = 260) :
    (let units := p.name.take entry.name.length
     let units := if units.length < entry.name.length then units ++ [0] else units
     { pid := p.pid, name := units ++ entry.name.drop units.length } : ProcessEntry) = entry.filled process := by
  have hfits := process.fits
  have htake : p.name.take entry.name.length = process.units := by
    rw [hshows.name, hentry]
    exact List.take_of_length_le hfits
  dsimp only
  rw [htake, hentry, hshows.pid, ProcessEntry.filled]
  split
  · rw [List.length_append, List.append_assoc]
    rfl
  · rw [List.drop_of_length_le (by omega)]

/-- The system with a snapshot that goes on at another position. -/
def Machine.moved (m : Machine) (snapshot : Handle) (position : Nat) : Machine :=
  { m with handles := m.handles.map fun entry =>
      if entry.1 = snapshot then (entry.1, .processSnapshot position) else entry }

private theorem run_fill (snapshot : Handle) (entry : ProcessEntry) (position : Nat) (m : Machine) :
    (fill snapshot entry position).run m =
      match m.processes.zipIdx.find? fun (p, i) => position ≤ i && !p.exited with
      | none => (.error "There are no more files.", m)
      | some (p, i) =>
        let units := p.name.take entry.name.length
        let units := if units.length < entry.name.length then units ++ [0] else units
        (.ok { pid := p.pid, name := units ++ entry.name.drop units.length }, m.moved snapshot (i + 1)) := by
  have hrun : (fill snapshot entry position).run m = (do
      match m.processes.zipIdx.find? fun (p, i) => position ≤ i && !p.exited with
      | none => throw "There are no more files."
      | some (p, i) =>
        set (m.moved snapshot (i + 1))
        let units := p.name.take entry.name.length
        let units := if units.length < entry.name.length then units ++ [0] else units
        return { pid := p.pid, name := units ++ entry.name.drop units.length } : Call Machine ProcessEntry).run m := rfl
  rw [hrun]
  cases m.processes.zipIdx.find? fun (p, i) => position ≤ i && !p.exited <;> rfl

/-- A call that no fault disturbs. -/
private theorem run_enter {α : Type} (hschedule : m.schedule = []) (function : Function) (arguments : List String)
    (act : Nat → Call Machine α) :
    ∃ calls, (enter function arguments act).run m = (act 0).run { m with calls } := by
  obtain ⟨processes, handles, given, schedule, calls⟩ := m
  subst hschedule
  exact ⟨_, rfl⟩

private theorem run_get_bind {α : Type} (f : Machine → Call Machine α) (m : Machine) :
    (get >>= f).run m = (f m).run m := rfl

section Calling

variable (hschedule : m.schedule = []) (hobject : m.object? snapshot = some (.processSnapshot position))
include hschedule hobject

private theorem run_nextProcess (entry : ProcessEntry) :
    ∃ calls, (api.nextProcess snapshot entry).run m = (fill snapshot entry position).run { m with calls } := by
  have hsame (calls : List String) :
      ({ m with calls } : Machine).object? snapshot = some (.processSnapshot position) := hobject
  change ∃ calls, (enter .nextProcess _ fun _ => get >>= _).run m = _
  refine (run_enter hschedule ..).imp fun calls hcall => hcall.trans ?_
  rw [run_get_bind, hsame]

private theorem run_firstProcess (entry : ProcessEntry) :
    ∃ calls, (api.firstProcess snapshot entry).run m = (fill snapshot entry 0).run { m with calls } := by
  have hsame (calls : List String) :
      ({ m with calls } : Machine).object? snapshot = some (.processSnapshot position) := hobject
  change ∃ calls, (enter .firstProcess _ fun _ => get >>= _).run m = _
  refine (run_enter hschedule ..).imp fun calls hcall => hcall.trans ?_
  rw [run_get_bind, hsame]

end Calling

private theorem object?_moved (hobject : (m.object? snapshot).isSome) (n : Nat) :
    (m.moved snapshot n).object? snapshot = some (.processSnapshot n) := by
  obtain ⟨object, hsome⟩ := Option.isSome_iff_exists.1 hobject
  obtain ⟨⟨h, object'⟩, hfind, -⟩ := Option.map_eq_some_iff.1 hsome
  obtain rfl : h = snapshot := by simpa using List.find?_some hfind
  have hsame : ((fun entry : Handle × Object => decide (entry.1 = h)) ∘ fun entry =>
      if entry.1 = h then (entry.1, .processSnapshot n) else entry) = fun entry => decide (entry.1 = h) := by
    funext entry
    simp only [Function.comp_apply]
    split <;> rfl
  unfold Machine.object? Machine.moved
  rw [List.find?_map, hsame, hfind]
  simp

section Searching

variable {before skipped rest : List SimulatedProcess} {p : SimulatedProcess}

private theorem find?_skipped (hskipped : ∀ q ∈ skipped, q.exited = true) :
    ((before ++ skipped).zipIdx.find? fun (q, i) => before.length ≤ i && !q.exited) = none := by
  refine List.find?_eq_none.2 fun ⟨q, i⟩ hmem hliving => ?_
  obtain ⟨hle, hq⟩ := Bool.and_eq_true_iff.1 hliving
  have hat : (before ++ skipped)[i]? = some q := List.mem_zipIdx_iff_getElem?.1 hmem
  rw [List.getElem?_append_right (of_decide_eq_true hle)] at hat
  rw [hskipped q (List.mem_of_getElem? hat)] at hq
  cases hq

private theorem find?_next (hskipped : ∀ q ∈ skipped, q.exited = true) (hp : p.exited = false) :
    ((before ++ (skipped ++ p :: rest)).zipIdx.find? fun (q, i) => before.length ≤ i && !q.exited) =
      some (p, before.length + skipped.length) := by
  rw [← List.append_assoc, List.zipIdx_append, List.find?_append, find?_skipped hskipped, Option.none_or,
    List.zipIdx_cons, List.find?_cons_of_pos]
  · rw [Nat.zero_add, List.length_append]
  · simp [hp]

end Searching

/-- The living processes from the position on are these, and all calls go their usual way. -/
structure Machine.Ahead (m : Machine) (position : Nat) (processes : List ListedProcess) : Prop where
  schedule : m.schedule = []
  split : ∃ before rest, m.processes = before ++ rest ∧ before.length = position ∧
    List.Forall₂ SimulatedProcess.ShowsAs (rest.filter (!·.exited)) processes

namespace Machine.Ahead

variable {process : ListedProcess} {processes : List ListedProcess}

private theorem fill_nil (h : m.Ahead position []) (snapshot : Handle) (entry : ProcessEntry) (calls : List String) :
    ∃ reason m', (fill snapshot entry position).run { m with calls } = (.error reason, m') := by
  obtain ⟨before, rest, hprocesses, rfl, hshows⟩ := h.split
  have hskipped : ∀ q ∈ rest, q.exited = true := by simpa using List.forall₂_nil_right_iff.1 hshows
  have hnone := @find?_skipped before rest hskipped
  rw [← hprocesses] at hnone
  refine ⟨"There are no more files.", { m with calls }, ?_⟩
  rw [run_fill, hnone]

private theorem fill_cons (h : m.Ahead position (process :: processes)) (hobject : (m.object? snapshot).isSome)
    (hentry : entry.name.length = 260) (calls : List String) :
    ∃ m' position', (fill snapshot entry position).run { m with calls } = (.ok (entry.filled process), m') ∧
      m'.Ahead position' processes ∧ m'.object? snapshot = some (.processSnapshot position') := by
  obtain ⟨before, rest, hprocesses, rfl, hshows⟩ := h.split
  obtain ⟨p, living, hfirst, hlater, hliving⟩ := List.forall₂_cons_right_iff.1 hshows
  obtain ⟨skipped, after, rfl, hskipped, hp, rfl⟩ := List.filter_eq_cons_iff.1 hliving
  have hnext := @find?_next before skipped after p (by simpa using hskipped) (by simpa using hp)
  rw [← hprocesses] at hnext
  have hcalls : (({ m with calls } : Machine).object? snapshot).isSome := hobject
  refine ⟨({ m with calls } : Machine).moved snapshot (before.length + skipped.length + 1),
    before.length + skipped.length + 1, ?_, ⟨h.schedule, before ++ (skipped ++ [p]), after, ?_, ?_, hlater⟩,
    object?_moved hcalls _⟩
  · rw [run_fill, hnext, ← filled_eq hfirst hentry]
  · exact hprocesses.trans (by simp)
  · simp only [List.length_append, List.length_singleton]
    omega

private theorem listsNext (h : m.Ahead position processes)
    (hobject : m.object? snapshot = some (.processSnapshot position)) :
    api.ListsNext snapshot processes m := by
  induction processes generalizing m position with
  | nil =>
    intro entry _
    obtain ⟨calls, hcall⟩ := run_nextProcess h.schedule hobject entry
    rw [hcall]
    exact h.fill_nil snapshot entry calls
  | cons process rest ih =>
    intro entry hentry
    obtain ⟨calls, hcall⟩ := run_nextProcess h.schedule hobject entry
    obtain ⟨m', position', hfill, hlater, hmoved⟩ := h.fill_cons (Option.isSome_of_eq_some hobject) hentry calls
    exact ⟨m', hcall.trans hfill, ih hlater hmoved⟩

/-- Unless a fault is scheduled, a snapshot of the simulated system shows the living processes. -/
private theorem lists (h : m.Ahead 0 processes) (hobject : m.object? snapshot = some (.processSnapshot position)) :
    api.Lists snapshot processes m := by
  cases processes with
  | nil =>
    intro entry _
    obtain ⟨calls, hcall⟩ := run_firstProcess h.schedule hobject entry
    rw [hcall]
    exact h.fill_nil snapshot entry calls
  | cons process rest =>
    intro entry hentry
    obtain ⟨calls, hcall⟩ := run_firstProcess h.schedule hobject entry
    obtain ⟨m', position', hfill, hlater, hmoved⟩ := h.fill_cons (Option.isSome_of_eq_some hobject) hentry calls
    exact ⟨m', hcall.trans hfill, hlater.listsNext hmoved⟩

end Machine.Ahead

end Simulation

/-! ### Listings -/

/-- A listing gives each process of a snapshot once, in order, with its number and its name: a name in Unicode as it is,
any other with one replacement character for each surrogate without a partner. -/
theorem listing_shows_processes (api : Api σ) (s : Traced σ) {w : σ} {snapshot : Handle}
    {processes : List ListedProcess}
    (hsnapshot : (api.createSnapshot snapshotProcesses 0).run s.world = (.ok snapshot, w))
    (hlists : api.Lists snapshot processes w) {limit : Nat} (hlimit : processes.length ≤ limit) :
    ∃ infos, ((platform api limit).processes.outcome s).1 = .ok infos ∧
      List.Forall₂ ListedProcess.ShownAs processes infos ∧
      ∀ process ∈ processes, ∃ pieces, Cuts process.units pieces := by
  refine ⟨_, outcome_processes hsnapshot hlists hlimit, ?_, fun process _ => exists_cuts process.units⟩
  rw [List.forall₂_map_right_iff]
  exact List.forall₂_same.2 fun process _ => process.shownAs_info

/-- A name without room for a zero, a shorter one with a pair of surrogates behind it, none at all, and one with two
surrogates in the wrong order; and a process that has ended. -/
theorem listing_shows_simulated_processes :
    let long : ListedProcess := ⟨4, List.replicate 260 0x61, fun h => absurd (List.eq_of_mem_replicate h) (by decide),
      List.length_replicate.le⟩
    let paired := ListedProcess.named 8 "a😀.exe" (by decide) (by decide)
    let nameless := ListedProcess.named 12 "" (by decide) (by decide)
    let unpaired : ListedProcess := ⟨16, [0x62, 0xDE00, 0xD83D], by decide, by decide⟩
    let simulated (p : ListedProcess) : Simulation.SimulatedProcess := { pid := p.pid, name := p.units }
    let machine : Simulation.Machine := { processes := [simulated long, { simulated long with exitCode := 0 },
      simulated paired, simulated nameless, simulated unpaired] }
    ∃ w, (Simulation.api.createSnapshot snapshotProcesses 0).run machine = (.ok ⟨4⟩, w) ∧
      Simulation.api.Lists ⟨4⟩ [long, paired, nameless, unpaired] w ∧
      ∃ infos, ((platform Simulation.api).processes.outcome ⟨machine, []⟩).1 = .ok infos ∧
        List.Forall₂ ListedProcess.ShownAs [long, paired, nameless, unpaired] infos ∧
          ∀ process ∈ [long, paired, nameless, unpaired], ∃ pieces, Cuts process.units pieces := by
  intro long paired nameless unpaired simulated machine
  have hshows (p : ListedProcess) : (simulated p).ShowsAs p := ⟨rfl, rfl⟩
  have hsnapshot : (Simulation.api.createSnapshot snapshotProcesses 0).run machine = (.ok ⟨4⟩, _) := rfl
  have hahead : Simulation.Machine.Ahead
      ((Simulation.api.createSnapshot snapshotProcesses 0).run machine).2 0 [long, paired, nameless, unpaired] :=
    ⟨rfl, [], _, rfl, rfl,
      .cons (hshows long) (.cons (hshows paired) (.cons (hshows nameless) (.cons (hshows unpaired) .nil)))⟩
  have hlists : Simulation.api.Lists ⟨4⟩ _ _ := hahead.lists rfl
  exact ⟨_, hsnapshot, hlists, listing_shows_processes Simulation.api ⟨machine, []⟩ hsnapshot hlists (by simp)⟩

end Windows

end LoadRemover
