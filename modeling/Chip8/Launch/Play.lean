import Chip8.Launch.Start
import Chip8.Machine.Step

/-! # Playing a program

While its window is open a program is played frame by frame: some steps are made, then
the picture of the screen is given to the window. A step or a window that fails ends it.
-/

namespace Chip8.Launch

/-- What the window answers: whether it opens, and for each picture until it is closed whether
it is shown. A failure has a cause. -/
structure Window where
  opening : Except String Unit
  showing : List (Except String Unit)

/-- The pictures given to the window, what was recorded, and the exit status. -/
structure Played where
  pictures : List (Vector UInt32 2048)
  records : List Record
  status : UInt8

def stepsPerFrame : Nat := 11

/-- Plays one frame for each answer of the window. -/
def playFrom (m : Machine) : List (Except String Unit) → Played
  | [] => ⟨[], [.closed], 0⟩
  | answer :: answers =>
    let r := m.run stepsPerFrame
    let picture := r.machine.screen.render
    match r.error?, answer with
    | some e, _ => ⟨[], r.records ++ [.stopped e.message], 1⟩
    | none, .error cause =>
      ⟨[picture], r.records ++ [.stopped ("failed to update window: " ++ cause)], 1⟩
    | none, .ok () =>
      let p := playFrom r.machine answers
      ⟨picture :: p.pictures, r.records ++ p.records, p.status⟩

def play (random : RandomSource) (path : String) (reading : Reading) (window : Window) : Played :=
  let s := start random path reading
  match s.machine?, window.opening with
  | none, _ => ⟨[], s.records, 1⟩
  | some _, .error cause =>
    ⟨[], s.records ++ [.stopped ("failed to create window: " ++ cause)], 1⟩
  | some m, .ok () =>
    let p := playFrom m window.showing
    { p with records := s.records ++ p.records }

end Chip8.Launch
