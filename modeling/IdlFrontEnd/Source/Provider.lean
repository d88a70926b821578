import IdlFrontEnd.Source.FileError

/-!
# Where sources come from

All that loading asks of a place that holds files.
-/
namespace IdlFrontEnd

structure SourceProvider where
  read : String → Except FileError String
  isFile : String → Bool
  /-- One path for all ways to reach a file; none for what is not there. -/
  canonical? : String → Option String
  /-- No more than this many files can be read. -/
  limit : Nat

end IdlFrontEnd
