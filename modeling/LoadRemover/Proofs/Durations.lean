import LoadRemover.Text.Clock
import Mathlib.Algebra.Order.Ring.Nat
import Mathlib.Data.Option.Basic

/-!
# Durations that are read back

`clock?` reads the texts of durations, and it is strict: it takes `h:mm:ss.mmm` with at least one hour and `m:ss.mmm`
below an hour, with the right number of digits in each place. A number without leading zeros has one notation
(`numeral_iff`), and so has a number of a given width (`field_iff`). Hence there is one text for each number of
milliseconds, the one that is written (`Duration.clock?_eq_millis_iff`).
-/

namespace LoadRemover

/-! ### Numbers -/

/-- The digits of a number, without leading zeros. -/
structure Numeral (n : Nat) (cs : List Char) : Prop where
  nonempty : cs ≠ []
  digits : cs.all Char.isDigit = true
  leading : cs.head? = some '0' → cs = ['0']
  value : Nat.ofDigitChars 10 cs 0 = n

/-- A number with `width` digits, leading zeros included. -/
structure Field (width n : Nat) (cs : List Char) : Prop where
  length : cs.length = width
  digits : cs.all Char.isDigit = true
  value : Nat.ofDigitChars 10 cs 0 = n

section Numbers

variable {n width : Nat} {c : Char} {cs : List Char}

private theorem all_isDigit_toDigits (n : Nat) : (Nat.toDigits 10 n).all Char.isDigit = true :=
  List.all_eq_true.2 fun _ hc => Nat.isDigit_of_mem_toDigits (by decide) (by decide) hc

private theorem exists_digit (h : c.isDigit = true) : ∃ d < 10, c = Nat.digitChar d ∧ c.toNat - '0'.toNat = d := by
  obtain ⟨hfrom, hto⟩ : 48 ≤ c.toNat ∧ c.toNat ≤ 57 := Char.isDigit_iff_toNat.1 h
  have hd : c.toNat - 48 < 10 := by omega
  refine ⟨c.toNat - 48, hd, Char.toNat_inj.1 ?_, rfl⟩
  rw [Nat.toNat_digitChar_of_lt_ten hd]
  omega

/-- Digits after the notation of a positive number give the notation of a larger one. -/
private theorem toDigits_append {k : Nat} (hk : 0 < k) (h : cs.all Char.isDigit = true) :
    Nat.toDigits 10 k ++ cs = Nat.toDigits 10 (Nat.ofDigitChars 10 cs k) := by
  induction cs generalizing k with
  | nil => rw [List.append_nil, Nat.ofDigitChars_nil]
  | cons c rest ih =>
    rw [List.all_cons, Bool.and_eq_true] at h
    obtain ⟨d, hd, rfl, hvalue⟩ := exists_digit h.1
    have hmore : Nat.toDigits 10 k ++ [d.digitChar] = Nat.toDigits 10 (10 * k + d) := by
      rw [← Nat.toDigits_append_toDigits (by decide) hk hd, Nat.toDigits_of_lt_base hd]
    rw [Nat.ofDigitChars_cons, hvalue, ← ih (by omega) h.2, ← hmore, List.append_assoc]
    rfl

/-- Digits of which the first is not zero are the notation of their value. -/
private theorem toDigits_of_head (hc : c ≠ '0') (h : (c :: cs).all Char.isDigit = true) :
    Nat.toDigits 10 (Nat.ofDigitChars 10 (c :: cs) 0) = c :: cs := by
  rw [List.all_cons, Bool.and_eq_true] at h
  obtain ⟨d, hd, rfl, hvalue⟩ := exists_digit h.1
  have hpos : 0 < d := by
    refine Nat.pos_of_ne_zero fun hzero => hc ?_
    rw [hzero]
    rfl
  rw [Nat.ofDigitChars_cons, hvalue, Nat.mul_zero, Nat.zero_add, ← toDigits_append hpos h.2,
    Nat.toDigits_of_lt_base hd]
  rfl

private theorem ofDigitChars_lt (h : cs.all Char.isDigit = true) : Nat.ofDigitChars 10 cs 0 < 10 ^ cs.length := by
  induction cs with
  | nil => decide
  | cons c rest ih =>
    rw [List.all_cons, Bool.and_eq_true] at h
    obtain ⟨d, hd, -, hvalue⟩ := exists_digit h.1
    have hrest := ih h.2
    have hle : 10 ^ rest.length * d ≤ 10 ^ rest.length * 9 := Nat.mul_le_mul_left _ (by omega)
    rw [Nat.ofDigitChars_cons, hvalue, Nat.mul_zero, Nat.zero_add, Nat.ofDigitChars_eq_ofDigitChars_zero,
      List.length_cons, Nat.pow_succ]
    omega

/-- Only the notation of zero begins with a zero. -/
private theorem toDigits_of_zero (h : '0' :: cs = Nat.toDigits 10 n) : cs = [] := by
  have hall := all_isDigit_toDigits n
  rw [← h, List.all_cons, Bool.and_eq_true] at hall
  have hvalue : Nat.ofDigitChars 10 cs 0 = n := by
    rw [← @Nat.ofDigitChars_ten_toDigits n, ← h, Nat.ofDigitChars_cons]
    rfl
  by_contra hne
  have hlength := (Nat.length_toDigits_le_iff (by decide) (List.length_pos_iff.2 hne)).2
    (hvalue ▸ ofDigitChars_lt hall.2)
  rw [← h, List.length_cons] at hlength
  omega

private theorem numeral_iff : Numeral n cs ↔ cs = Nat.toDigits 10 n := by
  constructor
  · rintro ⟨hnonempty, hdigits, hleading, rfl⟩
    cases cs with
    | nil => exact absurd rfl hnonempty
    | cons c rest =>
      by_cases hc : c = '0'
      · rw [hleading (congrArg some hc)]
        rfl
      · exact (toDigits_of_head hc hdigits).symm
  · rintro rfl
    refine ⟨Nat.toDigits_ne_nil, all_isDigit_toDigits n, fun hhead => ?_, Nat.ofDigitChars_ten_toDigits⟩
    obtain ⟨rest, hrest⟩ := List.head?_eq_some_iff.1 hhead
    rw [hrest, toDigits_of_zero hrest.symm]

private theorem padded_succ (hwidth : 0 < width) (h : n < 10 ^ width) :
    padded (width + 1) n = '0' :: padded width n := by
  have hlength := (Nat.length_toDigits_le_iff (by decide) hwidth).2 h
  have hzeros : width + 1 - (Nat.toDigits 10 n).length = width - (Nat.toDigits 10 n).length + 1 := by omega
  simp only [padded]
  rw [hzeros]
  rfl

private theorem padded_length (h : cs = Nat.toDigits 10 n) : padded cs.length n = cs := by
  subst h
  rw [padded, Nat.sub_self]
  rfl

/-- Digits are the notation of their value with as many digits. -/
private theorem padded_ofDigitChars (hne : cs ≠ []) (h : cs.all Char.isDigit = true) :
    padded cs.length (Nat.ofDigitChars 10 cs 0) = cs := by
  induction cs with
  | nil => exact absurd rfl hne
  | cons c rest ih =>
    by_cases hc : c = '0'
    · subst hc
      rw [List.all_cons, Bool.and_eq_true] at h
      by_cases hrest : rest = []
      · subst hrest
        rfl
      · have hvalue : Nat.ofDigitChars 10 ('0' :: rest) 0 = Nat.ofDigitChars 10 rest 0 := Nat.ofDigitChars_cons
        rw [hvalue, List.length_cons, padded_succ (List.length_pos_iff.2 hrest) (ofDigitChars_lt h.2),
          ih hrest h.2]
    · exact padded_length (toDigits_of_head hc h).symm

private theorem field_iff (hwidth : 0 < width) : Field width n cs ↔ n < 10 ^ width ∧ cs = padded width n := by
  constructor
  · rintro ⟨rfl, hdigits, rfl⟩
    exact ⟨ofDigitChars_lt hdigits, (padded_ofDigitChars (List.ne_nil_of_length_pos hwidth) hdigits).symm⟩
  · rintro ⟨hn, rfl⟩
    have hlength := (Nat.length_toDigits_le_iff (by decide) hwidth).2 hn
    refine ⟨?_, ?_, ?_⟩
    · rw [padded, List.length_append, List.length_replicate]
      omega
    · rw [padded, List.all_append, all_isDigit_toDigits, List.all_replicate, Bool.and_true]
      simp
    · rw [padded, Nat.ofDigitChars_append, Nat.ofDigitChars_replicate_zero, Nat.mul_zero,
        Nat.ofDigitChars_ten_toDigits]

end Numbers

/-! ### Marks between numbers -/

/-- What stands before the first mark and what stands behind it. -/
def cut? (mark : Char) : List Char → Option (List Char × List Char)
  | [] => none
  | c :: cs => if c = mark then some ([], cs) else (cut? mark cs).map fun (front, back) => (c :: front, back)

section Marks

variable {mark : Char} {cs front back : List Char}

private theorem cut?_append (hfront : mark ∉ front) (back : List Char) :
    cut? mark (front ++ mark :: back) = some (front, back) := by
  induction front with
  | nil => simp [cut?]
  | cons c front ih =>
    obtain ⟨hc, hfront⟩ := not_or.1 (mt List.mem_cons.2 hfront)
    rw [List.cons_append, cut?, if_neg (Ne.symm hc), ih hfront]
    rfl

private theorem eq_of_cut? (h : cut? mark cs = some (front, back)) : cs = front ++ mark :: back := by
  induction cs generalizing front with
  | nil => cases h
  | cons c rest ih =>
    unfold cut? at h
    split at h
    · rename_i hc
      cases h
      rw [hc]
      rfl
    · obtain ⟨⟨front', back'⟩, hrest, hsame⟩ := Option.map_eq_some_iff.1 h
      cases hsame
      rw [ih hrest]
      rfl

private theorem cut?_eq_none (h : mark ∉ cs) : cut? mark cs = none := by
  induction cs with
  | nil => rfl
  | cons c rest ih =>
    obtain ⟨hc, hrest⟩ := not_or.1 (mt List.mem_cons.2 h)
    rw [cut?, if_neg (Ne.symm hc), ih hrest]
    rfl

private theorem not_mem_of_digits (hmark : mark.isDigit = false) (h : cs.all Char.isDigit = true) : mark ∉ cs := by
  intro hmem
  rw [List.all_eq_true.1 h mark hmem] at hmark
  cases hmark

end Marks

/-! ### Texts -/

/-- `ss.mmm`, as a number of milliseconds. -/
def SecondsText (n : Nat) (cs : List Char) : Prop :=
  ∃ s ss t ts, cs = ss ++ '.' :: ts ∧ Field 2 s ss ∧ s < 60 ∧ Field 3 t ts ∧ n = s * 1000 + t

/-- `m:ss.mmm`, with at most 59 minutes, as a number of milliseconds. -/
def MinutesText (n : Nat) (cs : List Char) : Prop :=
  ∃ m ms r rest, cs = ms ++ ':' :: rest ∧ Numeral m ms ∧ m ≤ 59 ∧ SecondsText r rest ∧ n = m * 60000 + r

/-- `h:mm:ss.mmm`, with at least one hour, as a number of milliseconds. -/
def HoursText (n : Nat) (cs : List Char) : Prop :=
  ∃ h hs m ms r rest, cs = hs ++ ':' :: (ms ++ ':' :: rest) ∧ Numeral h hs ∧ 1 ≤ h ∧ Field 2 m ms ∧ m < 60 ∧
    SecondsText r rest ∧ n = (h * 60 + m) * 60000 + r

def numeral? (cs : List Char) : Option Nat :=
  if cs ≠ [] ∧ cs.all Char.isDigit = true ∧ (cs.head? = some '0' → cs = ['0']) then some (Nat.ofDigitChars 10 cs 0)
  else none

def field? (width : Nat) (cs : List Char) : Option Nat :=
  if cs.length = width ∧ cs.all Char.isDigit = true then some (Nat.ofDigitChars 10 cs 0) else none

def seconds? (cs : List Char) : Option Nat := do
  let (ss, ts) ← cut? '.' cs
  let s ← field? 2 ss
  let t ← field? 3 ts
  if s < 60 then some (s * 1000 + t) else none

/-- The milliseconds that a text denotes, if it is the text of a duration. -/
def clock? (cs : List Char) : Option Nat := do
  let (front, rest) ← cut? ':' cs
  let first ← numeral? front
  match cut? ':' rest with
  | none =>
    let r ← seconds? rest
    if first ≤ 59 then some (first * 60000 + r) else none
  | some (ms, rest) =>
    let m ← field? 2 ms
    let r ← seconds? rest
    if 1 ≤ first ∧ m < 60 then some ((first * 60 + m) * 60000 + r) else none

section Texts

variable {n width : Nat} {cs : List Char} {duration : Duration}

private theorem numeral?_eq_some_iff : numeral? cs = some n ↔ Numeral n cs := by
  unfold numeral?
  constructor
  · intro h
    split at h
    · rename_i hcs
      exact ⟨hcs.1, hcs.2.1, hcs.2.2, Option.some.inj h⟩
    · cases h
  · rintro ⟨hnonempty, hdigits, hleading, rfl⟩
    exact if_pos ⟨hnonempty, hdigits, hleading⟩

private theorem field?_eq_some_iff : field? width cs = some n ↔ Field width n cs := by
  unfold field?
  constructor
  · intro h
    split at h
    · rename_i hcs
      exact ⟨hcs.1, hcs.2, Option.some.inj h⟩
    · cases h
  · rintro ⟨hlength, hdigits, rfl⟩
    exact if_pos ⟨hlength, hdigits⟩

private theorem seconds?_eq_some_iff : seconds? cs = some n ↔ SecondsText n cs := by
  unfold seconds?
  constructor
  · intro h
    obtain ⟨⟨ss, ts⟩, hcut, h⟩ := Option.bind_eq_some_iff.1 h
    obtain ⟨s, hs, h⟩ := Option.bind_eq_some_iff.1 h
    obtain ⟨t, ht, h⟩ := Option.bind_eq_some_iff.1 h
    split at h
    · rename_i hlt
      exact ⟨s, ss, t, ts, eq_of_cut? hcut, field?_eq_some_iff.1 hs, hlt, field?_eq_some_iff.1 ht,
        (Option.some.inj h).symm⟩
    · cases h
  · rintro ⟨s, ss, t, ts, rfl, hs, hlt, ht, rfl⟩
    have hcut := cut?_append (not_mem_of_digits (by decide) hs.digits : '.' ∉ ss) ts
    simp only [hcut, field?_eq_some_iff.2 hs, field?_eq_some_iff.2 ht, Option.bind_eq_bind, Option.bind_some,
      if_pos hlt]

private theorem SecondsText.not_mem (h : SecondsText n cs) : ':' ∉ cs := by
  obtain ⟨s, ss, t, ts, rfl, hs, -, ht, -⟩ := h
  rw [List.mem_append, List.mem_cons]
  rintro (hmem | hmark | hmem)
  · exact not_mem_of_digits (by decide) hs.digits hmem
  · cases hmark
  · exact not_mem_of_digits (by decide) ht.digits hmem

private theorem clock?_eq_some_iff : clock? cs = some n ↔ MinutesText n cs ∨ HoursText n cs := by
  unfold clock?
  constructor
  · intro h
    obtain ⟨⟨front, rest⟩, hcut, h⟩ := Option.bind_eq_some_iff.1 h
    obtain ⟨first, hfirst, h⟩ := Option.bind_eq_some_iff.1 h
    rw [eq_of_cut? hcut]
    have hnumeral := numeral?_eq_some_iff.1 hfirst
    cases hnext : cut? ':' rest with
    | none =>
      rw [hnext] at h
      obtain ⟨r, hr, h⟩ := Option.bind_eq_some_iff.1 h
      split at h
      · rename_i hle
        exact .inl ⟨first, front, r, rest, rfl, hnumeral, hle, seconds?_eq_some_iff.1 hr, (Option.some.inj h).symm⟩
      · cases h
    | some parts =>
      obtain ⟨ms, back⟩ := parts
      rw [hnext] at h
      obtain ⟨m, hm, h⟩ := Option.bind_eq_some_iff.1 h
      obtain ⟨r, hr, h⟩ := Option.bind_eq_some_iff.1 h
      split at h
      · rename_i hbounds
        exact .inr ⟨first, front, m, ms, r, back, congrArg (front ++ ':' :: ·) (eq_of_cut? hnext), hnumeral,
          hbounds.1, field?_eq_some_iff.1 hm, hbounds.2, seconds?_eq_some_iff.1 hr, (Option.some.inj h).symm⟩
      · cases h
  · rintro (⟨m, ms, r, rest, rfl, hm, hle, hr, rfl⟩ | ⟨h, hs, m, ms, r, rest, rfl, hh, hpos, hm, hlt, hr, rfl⟩)
    · have hcut := cut?_append (not_mem_of_digits (by decide) hm.digits : ':' ∉ ms) rest
      simp only [hcut, numeral?_eq_some_iff.2 hm, cut?_eq_none hr.not_mem, seconds?_eq_some_iff.2 hr,
        Option.bind_eq_bind, Option.bind_some, if_pos hle]
    · have hcut := cut?_append (not_mem_of_digits (by decide) hh.digits : ':' ∉ hs) (ms ++ ':' :: rest)
      have hnext := cut?_append (not_mem_of_digits (by decide) hm.digits : ':' ∉ ms) rest
      simp only [hcut, numeral?_eq_some_iff.2 hh, hnext, field?_eq_some_iff.2 hm, seconds?_eq_some_iff.2 hr,
        Option.bind_eq_bind, Option.bind_some]
      exact if_pos ⟨hpos, hlt⟩

/-! ### What is written -/

private theorem secondsText_iff :
    SecondsText n cs ↔ n < 60000 ∧ cs = padded 2 (n / 1000) ++ '.' :: padded 3 (n % 1000) := by
  constructor
  · rintro ⟨s, ss, t, ts, rfl, hs, hlt, ht, rfl⟩
    obtain ⟨-, rfl⟩ := (field_iff (by decide)).1 hs
    obtain ⟨ht, rfl⟩ := (field_iff (by decide)).1 ht
    have hseconds : (s * 1000 + t) / 1000 = s := by omega
    have hrest : (s * 1000 + t) % 1000 = t := by omega
    rw [hseconds, hrest]
    exact ⟨by omega, rfl⟩
  · rintro ⟨hn, rfl⟩
    exact ⟨_, _, _, _, rfl, (field_iff (by decide)).2 ⟨by omega, rfl⟩, by omega,
      (field_iff (by decide)).2 ⟨by omega, rfl⟩, by omega⟩

/-- The seconds and thousandths of a text that is written. -/
private theorem secondsText_chars (n : Nat) :
    SecondsText (n % 60000) (padded 2 (n / 1000 % 60) ++ '.' :: padded 3 (n % 1000)) := by
  have hseconds : n % 60000 / 1000 = n / 1000 % 60 := by omega
  have hrest : n % 60000 % 1000 = n % 1000 := by omega
  rw [← hseconds, ← hrest]
  exact secondsText_iff.2 ⟨Nat.mod_lt _ (by decide), rfl⟩

private theorem SecondsText.unique {cs' : List Char} (h : SecondsText n cs) (h' : SecondsText n cs') : cs = cs' :=
  (secondsText_iff.1 h).2.trans (secondsText_iff.1 h').2.symm

private theorem chars_of_minutes (h : duration.millis < 3600000) : duration.chars =
    Nat.toDigits 10 (duration.millis / 60000) ++
      ':' :: (padded 2 (duration.millis / 1000 % 60) ++ '.' :: padded 3 (duration.millis % 1000)) := by
  have hhours : ¬ 0 < duration.millis / 3600000 := by omega
  have hminutes : duration.millis / 60000 % 60 = duration.millis / 60000 := by omega
  rw [Duration.chars, if_neg hhours, hminutes]

private theorem chars_of_hours (h : 3600000 ≤ duration.millis) : duration.chars =
    Nat.toDigits 10 (duration.millis / 3600000) ++ ':' :: (padded 2 (duration.millis / 60000 % 60) ++
      ':' :: (padded 2 (duration.millis / 1000 % 60) ++ '.' :: padded 3 (duration.millis % 1000))) := by
  have hhours : 0 < duration.millis / 3600000 := by omega
  rw [Duration.chars, if_pos hhours, List.append_assoc]
  rfl

private theorem minutesText_iff : MinutesText duration.millis cs ↔ duration.millis < 3600000 ∧ cs = duration.chars := by
  have hwritten := secondsText_chars duration.millis
  constructor
  · rintro ⟨m, ms, r, rest, rfl, hm, hle, hr, hmillis⟩
    obtain rfl := numeral_iff.1 hm
    have hlt := (secondsText_iff.1 hr).1
    have hsmall : duration.millis < 3600000 := by omega
    obtain rfl : m = duration.millis / 60000 := by omega
    obtain rfl : r = duration.millis % 60000 := by omega
    rw [chars_of_minutes hsmall, hr.unique hwritten]
    exact ⟨hsmall, rfl⟩
  · rintro ⟨hsmall, rfl⟩
    exact ⟨_, _, _, _, chars_of_minutes hsmall, numeral_iff.2 rfl, by omega, hwritten, by omega⟩

private theorem hoursText_iff : HoursText duration.millis cs ↔ 3600000 ≤ duration.millis ∧ cs = duration.chars := by
  have hwritten := secondsText_chars duration.millis
  constructor
  · rintro ⟨h, hs, m, ms, r, rest, rfl, hh, hpos, hm, hbound, hr, hmillis⟩
    obtain rfl := numeral_iff.1 hh
    obtain ⟨-, rfl⟩ := (field_iff (by decide)).1 hm
    have hlt := (secondsText_iff.1 hr).1
    have hlarge : 3600000 ≤ duration.millis := by omega
    obtain rfl : h = duration.millis / 3600000 := by omega
    obtain rfl : m = duration.millis / 60000 % 60 := by omega
    obtain rfl : r = duration.millis % 60000 := by omega
    rw [chars_of_hours hlarge, hr.unique hwritten]
    exact ⟨hlarge, rfl⟩
  · rintro ⟨hlarge, rfl⟩
    exact ⟨_, _, _, _, _, _, chars_of_hours hlarge, numeral_iff.2 rfl, by omega,
      (field_iff (by decide)).2 ⟨by omega, rfl⟩, by omega, hwritten, by omega⟩

/-- A text denotes the milliseconds of a duration exactly if it is the text of this duration. -/
private theorem clock?_eq_millis_iff : clock? cs = some duration.millis ↔ cs = duration.chars := by
  rw [clock?_eq_some_iff, minutesText_iff, hoursText_iff]
  constructor
  · rintro (⟨-, h⟩ | ⟨-, h⟩) <;> exact h
  · intro h
    rcases Nat.lt_or_ge duration.millis 3600000 with hsmall | hlarge
    · exact .inl ⟨hsmall, h⟩
    · exact .inr ⟨hlarge, h⟩

end Texts

namespace Duration

def hour : Duration := 3600000 * 1000000

private theorem hour_le_iff {duration : Duration} : hour ≤ duration ↔ 3600000 ≤ duration.millis :=
  (Nat.le_div_iff_mul_le (by decide)).symm

private theorem toList_text (duration : Duration) : duration.text.toList = duration.chars := String.toList_ofList

/-- A duration is shown with hours if there is at least one, and else with minutes. Its text denotes the whole
milliseconds of the duration, so two durations have the same text exactly if they agree in these. -/
theorem text_reads_back (duration : Duration) :
    (hour ≤ duration → HoursText duration.millis duration.text.toList) ∧
      (duration < hour → MinutesText duration.millis duration.text.toList) ∧
      clock? duration.text.toList = some (duration / 1000000) ∧
      ∀ other : Duration, duration.text = other.text ↔ duration / 1000000 = other / 1000000 := by
  have hread : clock? duration.text.toList = some duration.millis := clock?_eq_millis_iff.2 duration.toList_text
  refine ⟨fun h => hoursText_iff.2 ⟨hour_le_iff.1 h, duration.toList_text⟩,
    fun h => minutesText_iff.2 ⟨?_, duration.toList_text⟩, hread, fun other => ⟨fun h => ?_, fun h => ?_⟩⟩
  · exact Nat.lt_of_not_le fun hle => Nat.not_le.2 h (hour_le_iff.2 hle)
  · rw [h] at hread
    exact Option.some.inj (hread.symm.trans (clock?_eq_millis_iff.2 other.toList_text))
  · have hsame : duration.millis = other.millis := h
    rw [hsame] at hread
    exact String.toList_inj.1 ((clock?_eq_millis_iff.1 hread).trans other.toList_text.symm)

/-- Sixty minutes are shown as an hour, and not as minutes. -/
example : clock? ['6', '0', ':', '0', '0', '.', '0', '0', '0'] = none := by decide

end Duration

end LoadRemover
