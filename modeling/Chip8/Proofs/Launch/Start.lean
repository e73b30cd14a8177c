import Chip8.Launch.Start
import Chip8.Proofs.Machine.Faults

/-! # How a start is reported

What reading the program file gives decides how a start ends and what it reports. The
threshold decides which lines of the report are seen and nothing else.
-/

namespace Chip8

/-- The levels that a threshold keeps. -/
def Level.kept : Option Level → List Level
  | none => []
  | some error => [error]
  | some warn => [error, warn]
  | some info => [error, warn, info]
  | some debug => [error, warn, info, debug]
  | some trace => [error, warn, info, debug, trace]

theorem Level.passes_eq (threshold? : Option Level) (l : Level) :
    l.passes threshold? = decide (l ∈ kept threshold?) := by
  cases threshold? with
  | none => rfl
  | some threshold => cases threshold <;> cases l <;> rfl

abbrev Record.Line := Level × String × String

def Record.line (r : Record) : Line := (r.level, r.target, r.text)

theorem Record.line_visible (threshold? : Option Level) (rs : List Record) :
    (visible threshold? rs).map line = (rs.map line).filter (·.1 ∈ Level.kept threshold?) := by
  simp only [visible, Level.passes_eq, List.filter_map]
  rfl

namespace Launch

/-- The lines of a start, for each way in which the file was read. -/
def lines (path : String) : Reading → List Record.Line
  | .error cause =>
    [(.debug, "chipvm::memory", "opening '" ++ path ++ "'"),
      (.error, "chipvm", "cannot start: could not read program '" ++ path ++ "': " ++ cause)]
  | .ok image =>
    let kept := toString (min image.size 3584)
    (.debug, "chipvm::memory", "opening '" ++ path ++ "'") ::
    if image.size = 0 then [(.error, "chipvm", "cannot start: program image is empty")]
    else
      (if 3584 < image.size then
        [(.warn, "chipvm::memory", "program is " ++ toString image.size ++
          " bytes, truncated to the " ++ kept ++ " bytes available")]
      else []) ++
      [(.debug, "chipvm::memory", "loaded " ++ kept ++ " bytes at 0x200"),
        (.info, "chipvm", "loaded '" ++ path ++ "' (" ++ kept ++ " bytes)")]

variable (random : RandomSource) (path : String)

theorem start_unreadable (cause : String) : start random path (.error cause) =
    ⟨none, [.opening path, .cannotStart (.unreadable path cause)]⟩ := rfl

theorem start_empty {image : Array UInt8} (h : image.size = 0) : start random path (.ok image) =
    ⟨none, [.opening path, .cannotStart .emptyProgram]⟩ := by
  simp [start, Memory.loadFile, Memory.load, Array.isEmpty, h, Record.ofFault, Fault.isLoading]

theorem start_program {image : Array UInt8} (h : image.size ≠ 0) :
    start random path (.ok image) =
      ⟨some { Machine.fresh random with memory := Memory.zero.place image },
        .opening path ::
        (if 3584 < image.size then [.truncated image.size (min image.size 3584)] else []) ++
        [.placed (min image.size 3584), .loaded path (min image.size 3584)]⟩ := by
  have cut : min image.size 3584 < image.size ↔ 3584 < image.size := by omega
  by_cases long : 3584 < image.size <;>
    simp [start, Memory.loadFile, Memory.load, Array.isEmpty, h, Memory.fitting, cut, long,
      Machine.fresh]

theorem text_unreadable (cause : String) : (Record.cannotStart (.unreadable path cause)).text =
    "cannot start: could not read program '" ++ path ++ "': " ++ cause := by
  calc (Record.cannotStart (.unreadable path cause)).text
      = "cannot start: " ++ ("could not read program '" ++ path ++ "'" ++ ": " ++ cause) := rfl
    _ = "cannot start: " ++ "could not read program '" ++ path ++ ("'" ++ ": ") ++ cause := by
      simp only [← String.append_assoc]
    _ = _ := by simp only [String.reduceAppend]

theorem lines_start (reading : Reading) :
    (start random path reading).records.map Record.line = lines path reading := by
  cases reading with
  | error cause =>
    rw [start_unreadable, lines, ← text_unreadable]
    rfl
  | ok image =>
    by_cases empty : image.size = 0
    · rw [start_empty random path empty, lines, if_pos empty]
      rfl
    · rw [start_program random path empty, lines, if_neg empty]
      by_cases long : 3584 < image.size
      · rw [if_pos long, if_pos long]
        rfl
      · rw [if_neg long, if_neg long]
        rfl

theorem isSome_machine?_iff (reading : Reading) :
    (start random path reading).machine?.isSome = true ↔
      ∃ image, reading = .ok image ∧ image.size ≠ 0 := by
  cases reading with
  | error cause => simp [start_unreadable]
  | ok image =>
    by_cases empty : image.size = 0
    · rw [start_empty random path empty]
      refine ⟨nofun, ?_⟩
      rintro ⟨_, ⟨⟩, some_bytes⟩
      exact absurd empty some_bytes
    · rw [start_program random path empty]
      exact ⟨fun _ => ⟨image, rfl, empty⟩, fun _ => rfl⟩

theorem status_of_machine?_eq_none {s : Start} (h : s.machine? = none) : s.status? = some 1 := by
  rw [Start.status?, h]

theorem byte_start {image : Array UInt8} {m : Machine} (h : image.size ≠ 0)
    (hm : (start random path (.ok image)).machine? = some m) (n : Nat) :
    m.memory.byte n = (Memory.imageByte image n).getD 0 := by
  rw [start_program random path h] at hm
  obtain rfl := Option.some.inj hm
  change (Memory.zero.place image).byte n = _
  rw [Memory.byte_place, Memory.byte_zero]

end Launch

end Chip8
