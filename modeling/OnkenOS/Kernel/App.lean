import OnkenOS.Kernel.CString

/-!
# The application registry

`kernel/tasking/app.c`, with the entries the applications register.
-/

namespace OnkenOS

/-- `app_entry_t`, without its function pointers: an entry stands for its functions. -/
structure AppEntry where
  name : List UInt8
  title : List UInt8
  description : List UInt8
deriving DecidableEq

/-- The entries of the applications. -/
def systemApps : List AppEntry :=
  [⟨str "terminal", str "Onken Terminal", str "Command Shell"⟩,
   ⟨str "files", str "File Explorer", str "File Manager"⟩,
   ⟨str "yano", str "yano", str "Text Editor"⟩,
   ⟨str "htop", str "htop", str "Task Manager"⟩,
   ⟨str "settings", str "Settings", str "Appearance Settings"⟩,
   ⟨str "sysinfo", str "System Info", str "System Specifications"⟩,
   ⟨str "imageviewer", str "Image Viewer", str "PNG/JPEG/BMP Viewer"⟩,
   ⟨str "player", str "Sound Player", str "PC Speaker Chiptunes"⟩,
   ⟨str "browser", str "Onken Browser", str "Web Browser"⟩]

/-- `registry`, its first `count` entries: whatever applications have registered, in any
order. -/
structure Registry where
  entries : List AppEntry
  mem_systemApps : ∀ a ∈ entries, a ∈ systemApps

/-- The registry after the registrations of `shell_loop`. -/
def shellRegistry : Registry where
  entries :=
    [⟨str "htop", str "htop", str "Task Manager"⟩,
     ⟨str "yano", str "yano", str "Text Editor"⟩,
     ⟨str "sysinfo", str "System Info", str "System Specifications"⟩,
     ⟨str "browser", str "Onken Browser", str "Web Browser"⟩,
     ⟨str "files", str "File Explorer", str "File Manager"⟩,
     ⟨str "settings", str "Settings", str "Appearance Settings"⟩,
     ⟨str "terminal", str "Onken Terminal", str "Command Shell"⟩,
     ⟨str "player", str "Sound Player", str "PC Speaker Chiptunes"⟩,
     ⟨str "imageviewer", str "Image Viewer", str "PNG/JPEG/BMP Viewer"⟩]
  mem_systemApps := by decide

/-- A call of an entry's `launch`, with the argument or null. -/
structure Launch where
  app : AppEntry
  args : Option (List UInt8)
deriving DecidableEq

/-- `app_find`. -/
def appFind (registry : Registry) (name : List UInt8) : Option AppEntry :=
  registry.entries.find? fun a => strcmp a.name name == 0

/-- `app_get_count`. -/
def appGetCount (registry : Registry) : Nat := registry.entries.length

/-- `app_get_by_index`. -/
def appGetByIndex (registry : Registry) (index : Nat) : Option AppEntry :=
  registry.entries[index]?

/-- The names and descriptions that are printed are short. -/
theorem systemApps_short :
    ∀ a ∈ systemApps, strlen a.name ≤ 11 ∧ strlen a.description ≤ 21 := by decide

/-- What is found under a name is an application of the registry. -/
theorem appFind_mem {registry : Registry} {name : List UInt8} {a : AppEntry}
    (h : appFind registry name = some a) : a ∈ systemApps :=
  registry.mem_systemApps a (List.mem_of_find?_eq_some h)

/-- What is found by its index is one too. -/
theorem appGetByIndex_mem {registry : Registry} {index : Nat} {a : AppEntry}
    (h : appGetByIndex registry index = some a) : a ∈ systemApps :=
  registry.mem_systemApps a (List.mem_of_getElem? h)

end OnkenOS
