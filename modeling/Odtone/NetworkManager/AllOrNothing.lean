import Odtone.NetworkManager.Confinement

/-! # All or nothing

What a call of `AddConnection` or `Update` that fails leaves behind. Settings are converted before
the file is opened, so a failed call never touches a file. But `Update` replaces the settings in
memory first, and `AddConnection` dereferences what it finds for the `uuid` without looking. -/

namespace Odtone.NetworkManager.Settings

open Option

variable {st : Settings} {properties : SettingsMap}

end Odtone.NetworkManager.Settings
