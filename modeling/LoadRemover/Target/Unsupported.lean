import LoadRemover.Target.Platform

/-!
# Machines without access to processes
-/

namespace LoadRemover.Unsupported

def failure : Failure := .unsupported "process instrumentation is only supported on Windows"

/-- A platform on which nothing can be listed or opened, so it has no handles. -/
def platform : Platform Unit Empty where
  processes := throw failure
  openProcess _ := throw failure
  close process := nomatch process
  pid process := nomatch process
  hasExited process := nomatch process
  is64Bit process := nomatch process
  moduleBase process := nomatch process
  read process := nomatch process
  write process := nomatch process
  allocate process := nomatch process
  free process := nomatch process

end LoadRemover.Unsupported
