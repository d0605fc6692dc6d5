import BootFirmware.Tfa.Bakery.Exclusion
import BootFirmware.Tfa.Fwu.Bookkeeping
import BootFirmware.Tfa.Psci.Locks
import BootFirmware.Tfa.Psci.Statistics
import BootFirmware.Tfa.Fwu.Execution
import BootFirmware.Tfa.Ehf.Priorities
import BootFirmware.Uboot.Membuff.Fifo
import BootFirmware.Tfa.Sdei.LockDiscipline
import BootFirmware.Uboot.Net.Reassembly
import BootFirmware.Uboot.Fdt.RegionFinders
import BootFirmware.Uboot.Dm.Removal
import BootFirmware.Uboot.Dm.Sequence
import BootFirmware.Uboot.Dfu.Download
import BootFirmware.Tfa.Fip.Package
import BootFirmware.Uboot.Env.PowerLoss
import BootFirmware.Tfa.X509.Extensions
import BootFirmware.Uboot.Net.Receive
import BootFirmware.Uboot.Nfs.Transfer
import BootFirmware.Uboot.Env.SharedFormat
import BootFirmware.Uboot.Env.SharedAreas
import BootFirmware.Uboot.Ext4.Replay
import BootFirmware.Uboot.Binman.Build
import BootFirmware.Uboot.Kwbimage.Images
import BootFirmware.Uboot.Env.Failure
import BootFirmware.Uboot.Env.Matches
import BootFirmware.Uboot.Env.ExportBounds
import BootFirmware.Uboot.Env.CarriageReturns
import BootFirmware.Tfa.Psci.Forest
import BootFirmware.Tfa.Xlat.MmapArray
import BootFirmware.Tfa.Xlat.ArrayRegions
import BootFirmware.Tfa.Xlat.ChangeAttributes
import BootFirmware.Uboot.Tftp.Placement
import BootFirmware.Uboot.Rsa.VerifyKey
import BootFirmware.Uboot.Gpt.Fill
import BootFirmware.Uboot.Image.ConfigSig
import BootFirmware.Uboot.Efi.AllocateFailure
import BootFirmware.Uboot.Lmb.AllocSound
import BootFirmware.Uboot.Lmb.AllocHighest
import BootFirmware.Uboot.Efi.OpenDatabase
import BootFirmware.Tfa.Auth.Counter
import BootFirmware.Uboot.Charset.Malformed
import BootFirmware.Uboot.Dfu.Upload
import BootFirmware.Uboot.Gpt.Reader
import BootFirmware.Uboot.Env.AttrLookup
import BootFirmware.Tfa.AddrMap.AmbAdec
import BootFirmware.Tfa.Auth.LoadImage
import BootFirmware.Tfa.Fip.SingleFile
import BootFirmware.Uboot.Lz4.Frame
import BootFirmware.Tfa.Io.BlockExact
import BootFirmware.Uboot.Dm.Failure
import BootFirmware.Tfa.BootMemory
import BootFirmware.Uboot.Efi.FindObject
import BootFirmware.Uboot.Env.FwEnvSet
import BootFirmware.Uboot.Efi.InstallProtocols
