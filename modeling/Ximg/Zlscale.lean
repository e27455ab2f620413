import Ximg.Zcommon

/-!
# Scripted conversion
-/

namespace Ximg
open Text Calls

variable {Im : Type}

/-- The script's code, or the code set before it runs, with the wand after it. -/
def luaConvert (im : Im) (type : CString) (thrArg : ThrArg) : Prog (Sys Im) (Int × Im) := do
  let im ← magick (.resetIterator im)
  let im ← magick (.setImageOrientation im)
  if thrArg.luaState = true then
    if (← sys (.malloc 24)) = false then return (-1, im)
    let (ret, im) ← sys (.luaPcall type.bytes im)
    return (ret.toInt, im)
  else return (-1, im)

end Ximg
