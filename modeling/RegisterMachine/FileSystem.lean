import RegisterMachine.Fault

/-!
# File systems

All that matters of the files of a system is what reading one of them answers.
-/

namespace RegisterMachine

/-- What reading a path answers: the content of the file, or why there is none. -/
structure FileSystem where
  read : String → Except Fault (List UInt8)

end RegisterMachine
