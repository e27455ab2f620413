import Ximg.Zcommon

/-!
# The database backends

The four operations on an original or a rendition under a key, for each of the two servers.
-/

namespace Ximg
open Text Calls

variable {Im : Type} (settings : Settings) (thrArg : ThrArg)

def getImgBeansdb (key : Bytes) : Prog (Sys Im) (Option Bytes) :=
  if thrArg.beansdbConn = false then return none
  else sys (.memcached .beansdb (.get key))

def getImgSsdb (cacheKey : Bytes) : Prog (Sys Im) (Option Bytes) :=
  if thrArg.ssdbConn = false then return none
  else do
    match ← sys (.redisCommand (.get cacheKey)) with
    | some (.string str) => return some str
    | _ => return none

def getImgDb (cacheKey : Bytes) : Prog (Sys Im) (Option Bytes) :=
  if settings.mode = 2 ∧ thrArg.beansdbConn = true then getImgBeansdb thrArg cacheKey
  else if settings.mode = 3 ∧ thrArg.ssdbConn = true then getImgSsdb thrArg cacheKey
  else return none

def saveImgBeansdb (key value : Bytes) : Prog (Sys Im) Int :=
  if thrArg.beansdbConn = false then return -1
  else do
    if ← sys (.memcached .beansdb (.set key value)) then return 1 else return -1

def saveImgSsdb (cacheKey buff : Bytes) : Prog (Sys Im) Int :=
  if thrArg.ssdbConn = false then return -1
  else do
    match ← sys (.redisCommand (.set cacheKey buff)) with
    | some (.status str) => if strcasecmp str (ascii "OK") then return 1 else return -1
    | _ => return -1

def saveImgDb (cacheKey buff : Bytes) : Prog (Sys Im) Int :=
  if settings.mode = 2 then saveImgBeansdb thrArg cacheKey buff
  else if settings.mode = 3 then saveImgSsdb thrArg cacheKey buff
  else return -1

def existBeansdb (key : Bytes) : Prog (Sys Im) Int :=
  if thrArg.beansdbConn = false then return -1
  else do
    match ← sys (.memcached .beansdb (.get key)) with
    | some _ => return 1
    | none => return -1

/-- Reads the type of the reply before it frees it. -/
def freeReplyObject (r : Option RedisReply) : Prog (Sys Im) Unit :=
  if r = none then sys .crash else return ()

def existSsdb (cacheKey : Bytes) : Prog (Sys Im) Int :=
  if thrArg.ssdbConn = false then return -1
  else do
    let r ← sys (.redisCommand (.exists cacheKey))
    let rst : Int := if r = some (.integer 1) then 1 else -1
    -- the reply of a command that failed is freed as well
    freeReplyObject r
    return rst

def existDb (cacheKey : Bytes) : Prog (Sys Im) Int :=
  if settings.mode = 2 then do
    if (← existBeansdb thrArg cacheKey) = 1 then return 1 else return -1
  else if settings.mode = 3 then do
    if (← existSsdb thrArg cacheKey) = 1 then return 1 else return -1
  else return -1

def delBeansdb (key : Bytes) : Prog (Sys Im) Int :=
  if thrArg.beansdbConn = false then return -1
  else do
    if ← sys (.memcached .beansdb (.delete key)) then return 1 else return -1

def delSsdb (cacheKey : Bytes) : Prog (Sys Im) Int :=
  if thrArg.ssdbConn = false then return -1
  else do
    let r ← sys (.redisCommand (.del cacheKey))
    let rst : Int := if r = some (.integer 1) then 1 else -1
    freeReplyObject r
    return rst

def delDb (cacheKey : Bytes) : Prog (Sys Im) Int :=
  if settings.mode = 2 then do
    if (← delBeansdb thrArg cacheKey) = -1 then return -1 else return 1
  else if settings.mode = 3 then do
    if (← delSsdb thrArg cacheKey) = -1 then return -1 else return 1
  else return -1

end Ximg
