import LoadRemover.Timer

/-!
# Durations as text

A duration is shown as hours, minutes, seconds and thousandths, and the hours only if there are any: `1:02:05.250`
or `2:05.250`. What is less than a thousandth is dropped.
-/

namespace LoadRemover

/-- The decimal digits of a number, with zeros in front up to the given width. -/
def padded (width n : Nat) : List Char :=
  let digits := Nat.toDigits 10 n
  List.replicate (width - digits.length) '0' ++ digits

def Duration.millis (duration : Duration) : Nat := duration / 1000000

def Duration.chars (duration : Duration) : List Char :=
  let millis := Duration.millis duration
  let hours := millis / 3600000
  let minutes := millis / 60000 % 60
  let seconds := padded 2 (millis / 1000 % 60) ++ '.' :: padded 3 (millis % 1000)
  if 0 < hours then
    Nat.toDigits 10 hours ++ ':' :: padded 2 minutes ++ ':' :: seconds
  else
    Nat.toDigits 10 minutes ++ ':' :: seconds

example : Duration.chars 3725250000000 = ['1', ':', '0', '2', ':', '0', '5', '.', '2', '5', '0'] := by decide

example : Duration.chars 61005999999 = ['1', ':', '0', '1', '.', '0', '0', '5'] := by decide

def Duration.text (duration : Duration) : String := String.ofList duration.chars

end LoadRemover
