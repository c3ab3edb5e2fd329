import MrBig.Source.ClientlogModules

/-!
# The Windows release

clientlog/osversion.c. The table is an array of constants; its size in bytes fits `size_t`, so
no index wraps. A read behind the table is no result.
-/

set_option autoImplicit false

namespace MrBig.Source.OsVersion

/-- osversion_WindowsVersion. -/
structure WindowsVersion where
  name : Text
  version : Text
  buildNumber : Nat
  deriving DecidableEq, Repr

/-- Must be sorted by buildNumber. -/
structure VersionTable where
  entries : List WindowsVersion
  nonempty : entries ≠ []
  sorted : entries.Pairwise fun v w => v.buildNumber < w.buildNumber

def windowsPersonalVersions : VersionTable where
  entries :=
    [⟨"Windows 2000 Professional".toList, "NT 5.0".toList, 2195⟩,
      ⟨"Windows XP".toList, "NT 5.1".toList, 2600⟩,
      ⟨"Windows XP Professional x64 Edition".toList, "NT 5.2".toList, 3790⟩,
      ⟨"Windows Vista".toList, "NT 6.0".toList, 6002⟩,
      ⟨"Windows 7".toList, "NT 6.1".toList, 7601⟩,
      ⟨"Windows 8".toList, "NT 6.2".toList, 9200⟩,
      ⟨"Windows 8.1".toList, "NT 6.3".toList, 9600⟩,
      ⟨"Windows 10".toList, "1507".toList, 10240⟩,
      ⟨"Windows 10".toList, "1511".toList, 10586⟩,
      ⟨"Windows 10".toList, "1607".toList, 14393⟩,
      ⟨"Windows 10".toList, "1703".toList, 15063⟩,
      ⟨"Windows 10".toList, "1709".toList, 16299⟩,
      ⟨"Windows 10".toList, "1803".toList, 17134⟩,
      ⟨"Windows 10".toList, "1809".toList, 17763⟩,
      ⟨"Windows 10".toList, "1903".toList, 18362⟩,
      ⟨"Windows 10".toList, "1909".toList, 18363⟩,
      ⟨"Windows 10".toList, "2004".toList, 19041⟩,
      ⟨"Windows 10".toList, "20H2".toList, 19042⟩,
      ⟨"Windows 10".toList, "21H1".toList, 19043⟩,
      ⟨"Windows 10".toList, "21H2".toList, 19044⟩,
      ⟨"Windows 10".toList, "22H2".toList, 19045⟩,
      ⟨"Windows 10".toList, "unknown version".toList, 19046⟩,
      ⟨"Windows 11".toList, "21H2".toList, 22000⟩,
      ⟨"Windows 11".toList, "22H2".toList, 22621⟩,
      ⟨"Windows 11".toList, "23H2".toList, 22631⟩,
      ⟨"Windows 11".toList, "24H2".toList, 26100⟩,
      ⟨"Windows 11+".toList, "unknown version".toList, 26101⟩]
  nonempty := by decide
  sorted := by decide

def windowsServerVersions : VersionTable where
  entries :=
    [⟨"Windows 2000 Server".toList, "NT 5.0".toList, 2195⟩,
      ⟨"Windows Server 2003".toList, "NT 5.2".toList, 3790⟩,
      ⟨"Windows Server 2008".toList, "NT 6.0".toList, 6003⟩,
      ⟨"Windows Server 2008 R2".toList, "NT 6.1".toList, 7601⟩,
      ⟨"Windows Server 2012".toList, "NT 6.2".toList, 9200⟩,
      ⟨"Windows Server 2012 R2".toList, "NT 6.3".toList, 9600⟩,
      ⟨"Windows Server 2016".toList, "1607".toList, 14393⟩,
      ⟨"Windows Server".toList, "1709".toList, 16299⟩,
      ⟨"Windows Server".toList, "1803".toList, 17134⟩,
      ⟨"Windows Server".toList, "1809".toList, 17763⟩,
      ⟨"Windows Server".toList, "1903".toList, 18362⟩,
      ⟨"Windows Server".toList, "1909".toList, 18363⟩,
      ⟨"Windows Server".toList, "2004".toList, 19041⟩,
      ⟨"Windows Server".toList, "20H2".toList, 19042⟩,
      ⟨"Windows Server 2022".toList, "21H2".toList, 20348⟩,
      ⟨"Windows Server".toList, "23H2".toList, 25398⟩,
      ⟨"Windows Server 2025".toList, "24H2".toList, 26100⟩,
      ⟨"Windows Server".toList, "unknown version".toList, 26101⟩]
  nonempty := by decide
  sorted := by decide

/-! ### The search -/

/-- The variables of the search. The middle is computed whenever a bound moves. -/
structure Search (nVersions : Nat) where
  nCurr : Nat
  nLow : Nat
  nHigh : Nat
  middle : nCurr = (nLow + nHigh) / 2
  inside : nHigh ≤ nVersions

def startSearch (nVersions : Nat) : Search nVersions where
  nCurr := nVersions / 2
  nLow := 0
  nHigh := nVersions
  middle := by rw [Nat.zero_add]
  inside := Nat.le_refl nVersions

/-- The loop. -/
def searchLoop (versionList : List WindowsVersion) (build : Nat)
    (s : Search versionList.length) : Search versionList.length :=
  if more : s.nLow < s.nHigh - 1 then
    have within : s.nCurr < versionList.length := by
      have middle := s.middle
      have inside := s.inside
      omega
    if build < versionList[s.nCurr].buildNumber then
      searchLoop versionList build
        { nCurr := (s.nLow + s.nCurr) / 2, nLow := s.nLow, nHigh := s.nCurr
          middle := rfl, inside := Nat.le_of_lt within }
    else if build > versionList[s.nCurr].buildNumber then
      searchLoop versionList build
        { nCurr := (s.nCurr + 1 + s.nHigh) / 2, nLow := s.nCurr + 1, nHigh := s.nHigh
          middle := rfl, inside := s.inside }
    else s
  else s
termination_by s.nHigh - s.nLow
decreasing_by
  · have middle := s.middle
    omega
  · have middle := s.middle
    omega

/-- `nCurr` behind the loop. -/
def search (versionList : List WindowsVersion) (build : Nat) : Nat :=
  (searchLoop versionList build (startSearch versionList.length)).nCurr

/-! ### The line -/

/-- What GetVersionExW fills in; `szCSDVersion` is the text that wcstombs makes of it. -/
structure VersionInfo where
  dwMajorVersion : Nat
  dwMinorVersion : Nat
  dwBuildNumber : Nat
  workstation : Bool
  szCSDVersion : Text

def versionTable (info : VersionInfo) : VersionTable :=
  if info.workstation then windowsPersonalVersions else windowsServerVersions

/-- `win`; the build is a WORD. -/
def windowsVersion (info : VersionInfo) : Option WindowsVersion :=
  (versionTable info).entries[search (versionTable info).entries (info.dwBuildNumber % 65536)]?

/-- The name in `osName[64]`, with the service pack if there is one. -/
def osName (productName : Option Text) (info : VersionInfo) (win : WindowsVersion) : Text :=
  let name := (productName.getD win.name).take 63
  if info.szCSDVersion = [] then name
  else name ++ (' ' :: info.szCSDVersion.take 31).take (63 - name.length)

/-- The line that is appended behind the heading. -/
def osversionLine (productName : Option Text) (info : Option VersionInfo) : Option Text :=
  match info with
  | none => some (productName.getD "\nNot supported".toList)
  | some info => (windowsVersion info).map fun win =>
    osName productName info win ++ ", ".toList ++
      ("version ".toList ++ printInt info.dwMajorVersion ++ '.' ::
        printInt info.dwMinorVersion ++ '.' :: printInt info.dwBuildNumber ++ " (".toList ++
        win.version ++ [')']).take 63

end MrBig.Source.OsVersion
